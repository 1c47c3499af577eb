import ThemeOverride.Script.Walk

/-!
# Assertions of types

Expressions that only assert a type, and how a script is rid of them: `x as T`, `x satisfies T`,
`x!` and `<T>x` become `x`, and type arguments are dropped. A pass rewrites the outermost such
parts; passes follow one another until none is left.

## Main definitions

* `ThemeOverride.Script.Kind.isAssertion`: the kinds of assertions.
* `ThemeOverride.Script.asserted?`: the expression that an assertion is about.
* `ThemeOverride.Script.splice`: replaces stretches of a text, the last first.
* `ThemeOverride.Script.stripAssertions`: the text without assertions and type arguments.
-/

namespace ThemeOverride.Script

/-- Whether nodes of this kind assert the type of an expression. -/
def Kind.isAssertion : Kind → Bool
  | .asExpression | .satisfiesExpression | .nonNull | .typeAssertion => true
  | _ => false

/-- Whether nodes of this kind are dropped with the types in them. -/
def Kind.isTypeOnly (k : Kind) : Bool := k.isAssertion || k == .typeArguments

/-- The expression that an assertion is about, among the named parts of the assertion: the last
where the type comes first, the first otherwise. -/
def asserted? {α : Type} (kind : Kind) (named : List α) : Option α :=
  if kind == .typeAssertion then named.getLast? else named.head?

/-- A stretch of a text and what takes its place: a stretch within it, or nothing. -/
structure Replacement where
  start : Nat
  stop : Nat
  inner : Option (Nat × Nat)
  deriving Repr, DecidableEq

/-- A stretch of a text. -/
def slice {α : Type} (s : List α) (start stop : Nat) : List α := (s.take stop).drop start

/-- Replaces one stretch of a text. -/
def Replacement.apply {α : Type} (r : Replacement) (s : List α) : List α :=
  let inner := match r.inner with
    | none => []
    | some (a, b) => slice s a b
  s.take r.start ++ inner ++ s.drop r.stop

/-- Replaces stretches of a text one after the other, the last first. -/
def splice {α : Type} (replacements : List Replacement) (s : List α) : List α :=
  (replacements.mergeSort fun a b => decide (b.start ≤ a.start)).foldl (fun s r => r.apply s) s

/-- What takes the place of a part that asserts a type or gives type arguments. -/
def Placed.withoutTypes (p : Placed) : Replacement where
  start := p.start fun _ => 1
  stop := p.stop fun _ => 1
  inner :=
    if p.tree.kind == .typeArguments then none
    else (asserted? p.tree.kind (p.namedChildren fun _ => 1)).map (·.span fun _ => 1)

/-- What one pass replaces. -/
def typeOnlyParts (dialect : Dialect) (s : List Char) : List Replacement :=
  (Placed.outermost (fun _ => 1) Kind.isTypeOnly ⟨0, parse dialect s⟩).map Placed.withoutTypes

/-- At most `fuel` passes over a text. -/
def stripPasses (dialect : Dialect) (fuel : Nat) (s : List Char) : List Char :=
  match fuel with
  | 0 => s
  | fuel + 1 =>
    match typeOnlyParts dialect s with
    | [] => s
    | parts => stripPasses dialect fuel (splice parts s)

/-- The text without assertions and type arguments. Each pass but the last makes the text
shorter, so that there are no more passes than characters. -/
def stripAssertions (dialect : Dialect) (s : List Char) : List Char :=
  stripPasses dialect (s.length + 1) s

end ThemeOverride.Script
