import ThemeOverride.Script.Recovery

/-!
# Walks through syntax trees

A tree at a place in its text, the walks through all its parts, and the stretches of text that
the parts cover. Places are counted by a weight of characters, which is one to count characters
and the length of their encoding to count bytes.

## Main definitions

* `ThemeOverride.Script.Placed`: a tree at a place in a text.
* `ThemeOverride.Script.Placed.walk`: all parts of a tree, with a stack of those still to visit.
* `ThemeOverride.Script.Placed.outermost`: the outermost parts of given kinds.
* `ThemeOverride.Script.Placed.preorder`, `outermostBelow`: the same by recursion on the tree.
* `ThemeOverride.Script.references`: the names that a tree refers to.
-/

namespace ThemeOverride.Script

/-- The weight of some characters in a row. -/
def weigh (weight : Char → Nat) (s : List Char) : Nat := s.foldr (fun c n => weight c + n) 0

/-- A tree at a place in its text: the weight of all that comes before it and its blanks. -/
structure Placed where
  offset : Nat
  tree : Tree
  deriving Repr, Inhabited

namespace Placed

variable (weight : Char → Nat)

/-- Some trees in a row, from a place on. -/
def row (offset : Nat) : List Tree → List Placed
  | [] => []
  | t :: ts => ⟨offset, t⟩ :: row (offset + weigh weight t.chars) ts

/-- Where the first token of a tree begins. -/
def start (p : Placed) : Nat := p.offset + weigh weight p.tree.gap

/-- Where a tree ends. -/
def stop (p : Placed) : Nat := p.offset + weigh weight p.tree.chars

/-- The stretch of text that a tree covers. -/
def span (p : Placed) : Nat × Nat := (p.start weight, p.stop weight)

/-- The parts of a tree at their places. -/
def children (p : Placed) : List Placed := row weight p.offset p.tree.children

/-- The parts of a tree that have a name, at their places. -/
def namedChildren (p : Placed) : List Placed :=
  (p.children weight).filter (·.tree.kind.isNamed)

/-- The first part of a tree that plays the given part, at its place. -/
def child? (p : Placed) (f : Field) : Option Placed :=
  (p.children weight).find? (·.tree.field == some f)

end Placed

namespace Tree

mutual

/-- The number of nodes and leaves of a tree. -/
def size : Tree → Nat
  | leaf .. => 1
  | node _ _ cs => sizeAll cs + 1

/-- The number of nodes and leaves of some trees. -/
def sizeAll : List Tree → Nat
  | [] => 0
  | t :: ts => t.size + sizeAll ts

end

end Tree

namespace Placed

variable (weight : Char → Nat)

/-- Visits the trees on a stack and all their parts, the parts of a tree before what is below it
on the stack, up to `fuel` of them. -/
def walkStack (fuel : Nat) (stack : List Placed) : List Placed :=
  match fuel, stack with
  | 0, _ => []
  | _, [] => []
  | fuel + 1, p :: rest => p :: walkStack fuel (p.children weight ++ rest)

/-- All parts of a tree, itself first. -/
def walk (p : Placed) : List Placed := walkStack weight p.tree.size [p]

/-- Visits the trees on a stack and their parts, the last part of a tree first, but nothing below
those of the given kinds, and collects these. -/
def outermostStack (kinds : Kind → Bool) (fuel : Nat) (stack : List Placed) : List Placed :=
  match fuel, stack with
  | 0, _ => []
  | _, [] => []
  | fuel + 1, p :: rest =>
    if kinds p.tree.kind then p :: outermostStack kinds fuel rest
    else outermostStack kinds fuel ((p.children weight).reverse ++ rest)

/-- The parts of a tree of the given kinds that lie in no other such part, the last first. -/
def outermost (kinds : Kind → Bool) (p : Placed) : List Placed :=
  outermostStack weight kinds p.tree.size [p]

mutual

/-- A tree at a place and all its parts, a part before those to its right and after those it
lies in. -/
def preorderAt (offset : Nat) : Tree → List Placed
  | .leaf f k g s => [⟨offset, .leaf f k g s⟩]
  | .node f k cs => ⟨offset, .node f k cs⟩ :: preorderRow offset cs

/-- Some trees in a row from a place on, and all their parts. -/
def preorderRow (offset : Nat) : List Tree → List Placed
  | [] => []
  | t :: ts => preorderAt offset t ++ preorderRow (offset + weigh weight t.chars) ts

end

/-- All parts of a tree, by recursion on it. -/
def preorder (p : Placed) : List Placed := preorderAt weight p.offset p.tree

mutual

/-- The outermost parts of the given kinds of a tree at a place. -/
def outermostAt (kinds : Kind → Bool) (offset : Nat) : Tree → List Placed
  | .leaf f k g s => if kinds k then [⟨offset, .leaf f k g s⟩] else []
  | .node f k cs =>
    if kinds k then [⟨offset, .node f k cs⟩] else outermostRow kinds offset cs

/-- The outermost parts of the given kinds of some trees in a row. -/
def outermostRow (kinds : Kind → Bool) (offset : Nat) : List Tree → List Placed
  | [] => []
  | t :: ts =>
    outermostAt kinds offset t ++ outermostRow kinds (offset + weigh weight t.chars) ts

end

/-- The parts of the given kinds that lie in no other such part, by recursion on the tree. -/
def outermostBelow (kinds : Kind → Bool) (p : Placed) : List Placed :=
  outermostAt weight kinds p.offset p.tree

end Placed

/-- Whether nodes of this kind refer to something by its name. -/
def Kind.isReference : Kind → Bool
  | .identifier | .typeIdentifier | .shorthandProperty => true
  | _ => false

/-- The names that a tree refers to, each once, in the order of their characters. -/
def references (t : Tree) : List String :=
  let names := ((Placed.walk (fun _ => 0) ⟨0, t⟩).filter (·.tree.kind.isReference)).map
    fun p => p.tree.toText
  (names.mergeSort fun a b => decide (a ≤ b)).eraseDups

end ThemeOverride.Script
