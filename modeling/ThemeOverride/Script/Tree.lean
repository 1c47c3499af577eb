import ThemeOverride.Script.Kind

/-!
# Syntax trees

A syntax tree keeps every character of its text: a leaf holds the blanks before it beside its
own characters, so that the text is read back off the leaves. Positions are not stored; they
follow from the characters passed.

## Main definitions

* `ThemeOverride.Script.Tree`: syntax trees.
* `ThemeOverride.Script.Tree.chars`: every character of a tree.
* `ThemeOverride.Script.Tree.text`: the characters from the first token on.
* `ThemeOverride.Script.wrap`, `graft`: nodes around trees already built.
-/

namespace ThemeOverride.Script

/-- A syntax tree. A leaf is a token with the blanks before it; the children of a node are its
parts in the order of the text. -/
inductive Tree where
  | leaf (field : Option Field) (kind : Kind) (gap text : List Char)
  | node (field : Option Field) (kind : Kind) (children : List Tree)
  deriving Repr, Inhabited

namespace Tree

/-- What a tree is. -/
def kind : Tree → Kind
  | leaf _ k _ _ => k
  | node _ k _ => k

/-- The part that a tree plays in its parent. -/
def field : Tree → Option Field
  | leaf f _ _ _ => f
  | node f _ _ => f

/-- The parts of a tree. -/
def children : Tree → List Tree
  | leaf .. => []
  | node _ _ cs => cs

/-- The tree as the given part of a parent. -/
def withField (f : Field) : Tree → Tree
  | leaf _ k gap text => leaf (some f) k gap text
  | node _ k cs => node (some f) k cs

mutual

/-- Every character of a tree, with the blanks before it. -/
def chars : Tree → List Char
  | leaf _ _ gap text => gap ++ text
  | node _ _ cs => charsAll cs

/-- Every character of some trees in a row. -/
def charsAll : List Tree → List Char
  | [] => []
  | t :: ts => t.chars ++ charsAll ts

end

mutual

/-- The blanks before the first token of a tree. -/
def gap : Tree → List Char
  | leaf _ _ g _ => g
  | node _ _ cs => gapAll cs

/-- The blanks before the first token of some trees in a row. -/
def gapAll : List Tree → List Char
  | [] => []
  | t :: _ => t.gap

end

/-- The characters of a tree from its first token on. -/
def text (t : Tree) : List Char := t.chars.drop t.gap.length

/-- The characters of a tree as a string. -/
def toText (t : Tree) : String := String.ofList t.text

/-- The parts of a tree that have a name: all but keywords and punctuation. -/
def namedChildren (t : Tree) : List Tree := t.children.filter (·.kind.isNamed)

/-- The first part of a tree that plays the given part. -/
def child? (t : Tree) (f : Field) : Option Tree := t.children.find? (·.field == some f)

/-- Whether a keyword is one of the parts of a tree. -/
def hasKeyword (t : Tree) (keyword : String) : Bool :=
  t.children.any fun c => c.kind == .token && c.text == keyword.toList

mutual

/-- Whether a tree has a part that could not be read. -/
def hasError : Tree → Bool
  | leaf _ k _ _ => k == .error
  | node _ k cs => k == .error || hasErrorAll cs

/-- Whether one of some trees has a part that could not be read. -/
def hasErrorAll : List Tree → Bool
  | [] => false
  | t :: ts => t.hasError || hasErrorAll ts

end

end Tree

/-- A node around some trees. What may stand between any two tokens stays outside at the start,
so that a node begins with a token of its own. -/
def wrap (kind : Kind) (trees : List Tree) : List Tree :=
  trees.takeWhile (·.kind.isExtra) ++ [.node none kind (trees.dropWhile (·.kind.isExtra))]

/-- The node of `more` with the trees read before it as its first parts. -/
def graft (before more : List Tree) : List Tree :=
  match more.dropWhile (·.kind.isExtra) with
  | [.node _ kind children] =>
    wrap kind (before ++ more.takeWhile (·.kind.isExtra) ++ children)
  | _ => before ++ more

namespace Tree

@[simp] theorem charsAll_nil : charsAll [] = [] := by simp [charsAll]

@[simp] theorem charsAll_cons (t : Tree) (ts : List Tree) :
    charsAll (t :: ts) = t.chars ++ charsAll ts := by simp [charsAll]

@[simp] theorem charsAll_append (xs ys : List Tree) :
    charsAll (xs ++ ys) = charsAll xs ++ charsAll ys := by
  induction xs with
  | nil => simp
  | cons x xs ih => simp [ih]

@[simp] theorem chars_withField (f : Field) (t : Tree) : (t.withField f).chars = t.chars := by
  cases t <;> simp [withField, chars]

end Tree

/-- A node holds the characters of its parts, in their order. -/
theorem charsAll_wrap (kind : Kind) (trees : List Tree) :
    Tree.charsAll (wrap kind trees) = Tree.charsAll trees := by
  have h : Tree.charsAll (trees.takeWhile (·.kind.isExtra)) ++
      Tree.charsAll (trees.dropWhile (·.kind.isExtra)) = Tree.charsAll trees := by
    rw [← Tree.charsAll_append, List.takeWhile_append_dropWhile]
  simpa [wrap, Tree.chars] using h

/-- Grafting keeps the characters of both parts, in their order. -/
theorem charsAll_graft (before more : List Tree) :
    Tree.charsAll (graft before more) = Tree.charsAll before ++ Tree.charsAll more := by
  have h : Tree.charsAll (more.takeWhile (·.kind.isExtra)) ++
      Tree.charsAll (more.dropWhile (·.kind.isExtra)) = Tree.charsAll more := by
    rw [← Tree.charsAll_append, List.takeWhile_append_dropWhile]
  unfold graft
  split
  · rename_i field kind children hd
    rw [hd] at h
    simpa [charsAll_wrap, Tree.chars] using h
  · simp

end ThemeOverride.Script
