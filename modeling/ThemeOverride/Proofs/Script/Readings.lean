import Mathlib.Tactic.Lemma
import ThemeOverride.Script.Reading

/-!
# Readings of patterns

What texts are read as, whether they can be read or not, is put together from what their parts are
read as. The depth to which they are read is left out, as any depth will do that is great enough.

## Main definitions

* `ThemeOverride.Script.Pattern.Settles` — what a text is read as, to every great depth.

## Main results

* `ThemeOverride.Script.Pattern.Settles.seq` and others — readings put together.
* `ThemeOverride.Script.readProgram?_eq_some_iff` — the tree of a text without errors.
-/

namespace ThemeOverride.Script

open ThemeOverride.Script.Tree

/-! ## Tokens -/

/-- Comments are leaves. -/
lemma exists_leaf_of_mem_comments {fuel : Nat} {s : List Char} {x : Tree}
    (h : x ∈ (commentsUpTo fuel s).1) : ∃ gap text, x = .leaf none .comment gap text := by
  induction fuel generalizing s with
  | zero => cases h
  | succ fuel ih =>
    unfold commentsUpTo at h
    cases hcomment : commentLength (blanks s).2 with
    | none =>
      simp only [hcomment] at h
      cases h
    | some n =>
      simp only [hcomment, List.mem_cons] at h
      rcases h with rfl | h
      · exact ⟨_, _, rfl⟩
      · exact ih h

/-- What is read as a token are comments and the token, as leaves. -/
lemma exists_leaf_of_readToken {lead : Lead} {kind : Kind} {scan : Scanner} {s t : List Char}
    {xs : List Tree} {x : Tree} (h : readToken lead kind scan s = some (xs, t)) (hx : x ∈ xs) :
    ∃ k gap text, x = .leaf none k gap text ∧ (k = .comment ∨ k = kind) := by
  simp only [readToken, Option.map_eq_some_iff, Prod.mk.injEq] at h
  obtain ⟨n, -, rfl, -⟩ := h
  rcases List.mem_append.mp hx with hx | hx
  · cases lead with
    | nothing | blanks => cases hx
    | comments =>
      obtain ⟨gap, text, rfl⟩ := exists_leaf_of_mem_comments hx
      exact ⟨_, _, _, rfl, Or.inl rfl⟩
  · exact ⟨_, _, _, List.mem_singleton.mp hx, Or.inr rfl⟩

/-! ## Readings to every great depth -/

namespace Pattern

variable {R : Type}

/-- To every great depth, a pattern reads a text in the given way. -/
def Settles (rules : R → Pattern R) (left : List Tree) (p : Pattern R) (s : List Char)
    (r : Option (List Tree × List Char)) : Prop :=
  ∃ n, ∀ fuel ≥ n, read rules fuel left p s = r

/-- To every great depth, a step grows trees over a text in the given way. -/
def Grows (rules : R → Pattern R) (left : List Tree) (step : Pattern R) (s : List Char)
    (r : Option (List Tree × List Char)) : Prop :=
  ∃ n, ∀ fuel ≥ n, grown rules fuel left step s = r

variable {rules : R → Pattern R} {left xs ys : List Tree} {p q : Pattern R} {s t u : List Char}
  {r : Option (List Tree × List Char)}

namespace Settles

/-- A text is read in one way. -/
lemma unique {r' : Option (List Tree × List Char)} (h : Settles rules left p s r)
    (h' : Settles rules left p s r') : r = r' := by
  obtain ⟨n, hn⟩ := h
  obtain ⟨m, hm⟩ := h'
  rw [← hn (max n m) (Nat.le_max_left _ _), hm (max n m) (Nat.le_max_right _ _)]

lemma of_succ (n : Nat) (h : ∀ fuel ≥ n, read rules (fuel + 1) left p s = r) :
    Settles rules left p s r := by
  refine ⟨n + 1, fun fuel hfuel => ?_⟩
  obtain ⟨fuel, rfl⟩ : ∃ k, fuel = k + 1 := ⟨fuel - 1, by omega⟩
  exact h fuel (by omega)

lemma empty : Settles rules left .empty s (some ([], s)) := by
  refine of_succ 0 fun fuel hfuel => ?_
  rw [read]

lemma token {lead : Lead} {kind : Kind} {scan : Scanner} :
    Settles rules left (.token lead kind scan) s (readToken lead kind scan s) := by
  refine of_succ 0 fun fuel hfuel => ?_
  rw [read]

/-- A row of patterns cannot be read where its first pattern cannot. -/
lemma seq_left_none (hp : Settles rules left p s none) : Settles rules left (.seq p q) s none := by
  obtain ⟨n, hn⟩ := hp
  refine of_succ n fun fuel hfuel => ?_
  rw [read, hn fuel (by omega)]

/-- What comes of the second of two patterns comes of both, behind what the first has read. -/
lemma seq_map (hp : Settles rules left p s (some (xs, t))) (hq : Settles rules left q t r) :
    Settles rules left (.seq p q) s (r.map fun (ys, u) => (xs ++ ys, u)) := by
  obtain ⟨n, hn⟩ := hp
  obtain ⟨m, hm⟩ := hq
  refine of_succ (max n m) fun fuel hfuel => ?_
  rw [read, hn fuel (by omega)]
  dsimp only
  rw [hm fuel (by omega)]
  cases r <;> rfl

lemma seq (hp : Settles rules left p s (some (xs, t)))
    (hq : Settles rules left q t (some (ys, u))) :
    Settles rules left (.seq p q) s (some (xs ++ ys, u)) :=
  hp.seq_map hq

lemma either_left (hp : Settles rules left p s (some (xs, t))) :
    Settles rules left (.either p q) s (some (xs, t)) := by
  obtain ⟨n, hn⟩ := hp
  refine of_succ n fun fuel hfuel => ?_
  rw [read, hn fuel (by omega)]

lemma either_right (hp : Settles rules left p s none) (hq : Settles rules left q s r) :
    Settles rules left (.either p q) s r := by
  obtain ⟨n, hn⟩ := hp
  obtain ⟨m, hm⟩ := hq
  refine of_succ (max n m) fun fuel hfuel => ?_
  rw [read, hn fuel (by omega)]
  exact hm fuel (by omega)

/-- A loop ends where its body cannot be read. -/
lemma many_nil (hp : Settles rules left p s none) :
    Settles rules left (.many p) s (some ([], s)) := by
  obtain ⟨n, hn⟩ := hp
  refine of_succ n fun fuel hfuel => ?_
  rw [read, hn fuel (by omega)]

/-- A loop goes on after its body was read. -/
lemma many_map (hp : Settles rules left p s (some (xs, t)))
    (hq : Settles rules left (.many p) t r) :
    Settles rules left (.many p) s (r.map fun (ys, u) => (xs ++ ys, u)) := by
  obtain ⟨n, hn⟩ := hp
  obtain ⟨m, hm⟩ := hq
  refine of_succ (max n m) fun fuel hfuel => ?_
  rw [read, hn fuel (by omega)]
  dsimp only
  rw [hm fuel (by omega)]
  cases r <;> rfl

lemma many_cons (hp : Settles rules left p s (some (xs, t)))
    (hq : Settles rules left (.many p) t (some (ys, u))) :
    Settles rules left (.many p) s (some (xs ++ ys, u)) :=
  hp.many_map hq

lemma rule {name : R} (h : Settles rules left (rules name) s r) :
    Settles rules left (.rule name) s r := by
  obtain ⟨n, hn⟩ := h
  refine of_succ n fun fuel hfuel => ?_
  rw [read, hn fuel (by omega)]

lemma node_map (kind : Kind) (h : Settles rules left p s r) :
    Settles rules left (.node kind p) s (r.map fun (xs, t) => (wrap kind xs, t)) := by
  obtain ⟨n, hn⟩ := h
  refine of_succ n fun fuel hfuel => ?_
  rw [read, hn fuel (by omega)]

lemma node {kind : Kind} (h : Settles rules left p s (some (xs, t))) :
    Settles rules left (.node kind p) s (some (wrap kind xs, t)) :=
  h.node_map kind

lemma field_map (f : Field) (h : Settles rules left p s r) :
    Settles rules left (.field f p) s (r.map fun (xs, t) => (asField f xs, t)) := by
  obtain ⟨n, hn⟩ := h
  refine of_succ n fun fuel hfuel => ?_
  rw [read, hn fuel (by omega)]

lemma field {f : Field} (h : Settles rules left p s (some (xs, t))) :
    Settles rules left (.field f p) s (some (asField f xs, t)) :=
  h.field_map f

lemma grow_none (hp : Settles rules left p s none) : Settles rules left (.grow p q) s none := by
  obtain ⟨n, hn⟩ := hp
  refine of_succ n fun fuel hfuel => ?_
  rw [read, hn fuel (by omega)]

lemma grow (hp : Settles rules left p s (some (xs, t))) (hq : Grows rules xs q t r) :
    Settles rules left (.grow p q) s r := by
  obtain ⟨n, hn⟩ := hp
  obtain ⟨m, hm⟩ := hq
  refine of_succ (max n m) fun fuel hfuel => ?_
  rw [read, hn fuel (by omega)]
  exact hm fuel (by omega)

lemma after {suits : Kind → Bool} (hsuits : suits (lastKind left))
    (h : Settles rules left p s r) : Settles rules left (.after suits p) s r := by
  obtain ⟨n, hn⟩ := h
  refine of_succ n fun fuel hfuel => ?_
  rw [read, if_pos hsuits, hn fuel (by omega)]

lemma after_none {suits : Kind → Bool} (hsuits : ¬ suits (lastKind left)) :
    Settles rules left (.after suits p) s none := by
  refine of_succ 0 fun fuel hfuel => ?_
  rw [read, if_neg hsuits]

lemma only_filter (suits : Kind → Bool) (h : Settles rules left p s r) :
    Settles rules left (.only suits p) s (r.filter fun (xs, _) => suits (lastKind xs)) := by
  obtain ⟨n, hn⟩ := h
  refine of_succ n fun fuel hfuel => ?_
  rw [read, hn fuel (by omega)]
  cases r with
  | none => rfl
  | some r => rw [Option.filter_some]

lemma ahead_map (h : Settles rules left p s r) :
    Settles rules left (.ahead p) s (r.map fun _ => ([], s)) := by
  obtain ⟨n, hn⟩ := h
  refine of_succ n fun fuel hfuel => ?_
  rw [read, hn fuel (by omega)]

lemma absent (h : Settles rules left p s none) :
    Settles rules left (.absent p) s (some ([], s)) := by
  obtain ⟨n, hn⟩ := h
  refine of_succ n fun fuel hfuel => ?_
  rw [read, hn fuel (by omega)]

lemma absent_none (h : Settles rules left p s (some (xs, t))) :
    Settles rules left (.absent p) s none := by
  obtain ⟨n, hn⟩ := h
  refine of_succ n fun fuel hfuel => ?_
  rw [read, hn fuel (by omega)]

lemma guard (test : Test) :
    Settles rules left (.guard test) s (if test.holds s then some ([], s) else none) := by
  refine of_succ 0 fun fuel hfuel => ?_
  rw [read]

end Settles

namespace Grows

lemma of_succ (n : Nat) (h : ∀ fuel ≥ n, grown rules (fuel + 1) left p s = r) :
    Grows rules left p s r := by
  refine ⟨n + 1, fun fuel hfuel => ?_⟩
  obtain ⟨fuel, rfl⟩ : ∃ k, fuel = k + 1 := ⟨fuel - 1, by omega⟩
  exact h fuel (by omega)

/-- Trees are grown where the step cannot be read. -/
lemma done (h : Settles rules left p s none) : Grows rules left p s (some (left, s)) := by
  obtain ⟨n, hn⟩ := h
  refine of_succ n fun fuel hfuel => ?_
  rw [grown, hn fuel (by omega)]

/-- Trees grow on after a step. -/
lemma step (h : Settles rules left p s (some (xs, t))) (hrest : Grows rules (graft left xs) p t r) :
    Grows rules left p s r := by
  obtain ⟨n, hn⟩ := h
  obtain ⟨m, hm⟩ := hrest
  refine of_succ (max n m) fun fuel hfuel => ?_
  rw [grown, hn fuel (by omega)]
  exact hm fuel (by omega)

end Grows

end Pattern

/-! ## Scripts -/

variable {dialect : Dialect} {s rest : List Char}

/-- The trees of a form hold exactly the characters passed. -/
lemma charsAll_readForm {form : Form} {trees : List Tree}
    (h : readForm dialect form s = some (trees, rest)) : charsAll trees ++ rest = s :=
  (Pattern.Reads.of_read h).chars

/-- The tree of a text without errors is what the grammar reads of it, up to its end. -/
lemma readProgram?_eq_some_iff {root : Tree} :
    readProgram? dialect s = some root ↔
      ∃ trees, readForm dialect Form.program s = some (trees, []) ∧
        root = .node none .program trees := by
  unfold readProgram?
  constructor
  · intro h
    split at h
    · rename_i trees hform
      exact ⟨trees, hform, (Option.some.inj h).symm⟩
    · cases h
  · rintro ⟨trees, hform, rfl⟩
    rw [hform]

/-- The tree of a text without errors holds all of its characters. -/
lemma chars_readProgram? {root : Tree} (h : readProgram? dialect s = some root) :
    root.chars = s := by
  obtain ⟨trees, hform, rfl⟩ := readProgram?_eq_some_iff.mp h
  have hchars := charsAll_readForm hform
  rwa [List.append_nil] at hchars

end ThemeOverride.Script
