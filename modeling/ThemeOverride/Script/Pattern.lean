import ThemeOverride.Script.Scanner

/-!
# Patterns of text

A grammar is a family of patterns, one for each rule. A pattern reads a stretch of text from the
left and answers with the syntax trees it stands for; of two alternatives the first that fits is
taken. Every character read goes into a tree, so a reading never loses text.

## Main definitions

* `ThemeOverride.Script.Pattern`: patterns over the rules of a grammar.
* `ThemeOverride.Script.Pattern.read`: reading a text by a pattern.
* `ThemeOverride.Script.Pattern.Reads`: the readings of a pattern, told without their depth.

## Main results

* `ThemeOverride.Script.Pattern.Reads.of_read`: what is read to some depth is a reading.
* `ThemeOverride.Script.Pattern.Reads.chars`: the trees of a reading hold exactly the characters
  passed.

## Design

A reading is made up of readings of the parts of its pattern, so that what holds of all readings
is shown by induction, with one case for each way to read. `Reads` only tells what was read: not
that the first of two patterns did not fit where the second was read, nor that a loop ended because
its pattern fit no more. A loop that grows is told from its last step: what was grown before is a
reading of the same loop.
-/

namespace ThemeOverride.Script

/-- What may come before a token: nothing, blanks, or blanks and comments. -/
inductive Lead where
  | nothing
  | blanks
  | comments
  deriving DecidableEq, Repr

/-- A pattern of text over the rules `R` of a grammar. -/
inductive Pattern (R : Type) where
  /-- Reads nothing. -/
  | empty
  /-- Reads one token. -/
  | token (lead : Lead) (kind : Kind) (scan : Scanner)
  /-- Reads one pattern after the other. -/
  | seq (first second : Pattern R)
  /-- Reads the first pattern that fits. -/
  | either (first second : Pattern R)
  /-- Reads a pattern as often as it fits. -/
  | many (body : Pattern R)
  /-- Reads a rule of the grammar. -/
  | rule (r : R)
  /-- Reads a pattern and puts a node around it. -/
  | node (kind : Kind) (body : Pattern R)
  /-- Reads a pattern as the given part of the node around it. -/
  | field (f : Field) (body : Pattern R)
  /-- Reads `base`, then `step` as often as it fits; each node that `step` reads takes all that
  was read before as its first parts. -/
  | grow (base step : Pattern R)
  /-- Reads a pattern if the node grown so far is of a suitable kind. -/
  | after (suits : Kind → Bool) (body : Pattern R)
  /-- Reads a pattern that ends in a node of a suitable kind. -/
  | only (suits : Kind → Bool) (body : Pattern R)
  /-- Reads nothing, where the pattern fits. -/
  | ahead (body : Pattern R)
  /-- Reads nothing, where the pattern does not fit. -/
  | absent (body : Pattern R)
  /-- Reads nothing, where the text that follows passes a test. -/
  | guard (test : Test)

/-- The blanks and comments before a token, as leaves, with the text after them and the blanks
that are left before the token. -/
def skipLead : Lead → List Char → List Tree × List Char × List Char
  | .nothing, s => ([], [], s)
  | .blanks, s => ([], blanks s)
  | .comments, s => comments s

/-- One token with what may come before it. -/
def readToken (lead : Lead) (kind : Kind) (scan : Scanner) (s : List Char) :
    Option (List Tree × List Char) :=
  let (extras, gap, rest) := skipLead lead s
  (scan.length rest).map fun n => (extras ++ [.leaf none kind gap (rest.take n)], rest.drop n)

theorem skipLead_append (lead : Lead) (s : List Char) :
    Tree.charsAll (skipLead lead s).1 ++ ((skipLead lead s).2.1 ++ (skipLead lead s).2.2) = s := by
  cases lead with
  | nothing => simp [skipLead]
  | blanks => simp [skipLead, blanks_append]
  | comments => exact commentsUpTo_append s.length s

/-- A token holds the characters passed. -/
theorem readToken_chars {lead : Lead} {kind : Kind} {scan : Scanner}
    {s t : List Char} {xs : List Tree} (h : readToken lead kind scan s = some (xs, t)) :
    Tree.charsAll xs ++ t = s := by
  simp only [readToken, Option.map_eq_some_iff, Prod.mk.injEq] at h
  obtain ⟨n, -, rfl, rfl⟩ := h
  simpa [Tree.chars] using skipLead_append lead s

namespace Pattern

variable {R : Type}

/-- The kind of the last tree read. -/
def lastKind (trees : List Tree) : Kind := (trees.getLast?.map Tree.kind).getD .token

/-- The trees as the given part of the node around them. -/
def asField (f : Field) (trees : List Tree) : List Tree :=
  trees.map fun t => if t.kind.isExtra then t else t.withField f

mutual

/-- Reads a text by a pattern, to the depth `fuel`. `left` holds the trees grown so far. -/
def read (rules : R → Pattern R) (fuel : Nat) (left : List Tree) (p : Pattern R) (s : List Char) :
    Option (List Tree × List Char) :=
  match fuel with
  | 0 => none
  | fuel + 1 =>
    match p with
    | empty => some ([], s)
    | token lead kind scan => readToken lead kind scan s
    | seq first second =>
      match read rules fuel left first s with
      | none => none
      | some (xs, t) =>
        match read rules fuel left second t with
        | none => none
        | some (ys, u) => some (xs ++ ys, u)
    | either first second =>
      match read rules fuel left first s with
      | none => read rules fuel left second s
      | some r => some r
    | many body =>
      match read rules fuel left body s with
      | none => some ([], s)
      | some (xs, t) =>
        match read rules fuel left (many body) t with
        | none => none
        | some (ys, u) => some (xs ++ ys, u)
    | rule r => read rules fuel left (rules r) s
    | node kind body => (read rules fuel left body s).map fun (xs, t) => (wrap kind xs, t)
    | field f body => (read rules fuel left body s).map fun (xs, t) => (asField f xs, t)
    | grow base step =>
      match read rules fuel left base s with
      | none => none
      | some (xs, t) => grown rules fuel xs step t
    | after suits body => if suits (lastKind left) then read rules fuel left body s else none
    | only suits body =>
      match read rules fuel left body s with
      | none => none
      | some (xs, t) => if suits (lastKind xs) then some (xs, t) else none
    | ahead body => (read rules fuel left body s).map fun _ => ([], s)
    | absent body =>
      match read rules fuel left body s with
      | none => some ([], s)
      | some _ => none
    | guard test => if test.holds s then some ([], s) else none

/-- Grows the trees read so far by a step as often as it fits. -/
def grown (rules : R → Pattern R) (fuel : Nat) (left : List Tree) (step : Pattern R)
    (s : List Char) : Option (List Tree × List Char) :=
  match fuel with
  | 0 => none
  | fuel + 1 =>
    match read rules fuel left step s with
    | none => some (left, s)
    | some (xs, t) => grown rules fuel (graft left xs) step t

end

theorem charsAll_asField (f : Field) (trees : List Tree) :
    Tree.charsAll (asField f trees) = Tree.charsAll trees := by
  induction trees with
  | nil => simp [asField]
  | cons t rest ih =>
    by_cases h : t.kind.isExtra <;> simp_all [asField]

/-- The readings of a pattern: the trees it reads of a text, and the text it leaves. -/
inductive Reads (rules : R → Pattern R) :
    List Tree → Pattern R → List Char → List Tree → List Char → Prop
  | empty {left : List Tree} {s : List Char} : Reads rules left .empty s [] s
  | token {left xs : List Tree} {lead : Lead} {kind : Kind} {scan : Scanner} {s t : List Char}
      (htoken : readToken lead kind scan s = some (xs, t)) :
      Reads rules left (.token lead kind scan) s xs t
  | seq {left xs ys : List Tree} {first second : Pattern R} {s t u : List Char}
      (hfirst : Reads rules left first s xs t) (hsecond : Reads rules left second t ys u) :
      Reads rules left (.seq first second) s (xs ++ ys) u
  | first {left xs : List Tree} {first second : Pattern R} {s t : List Char}
      (hfirst : Reads rules left first s xs t) : Reads rules left (.either first second) s xs t
  | second {left xs : List Tree} {first second : Pattern R} {s t : List Char}
      (hsecond : Reads rules left second s xs t) : Reads rules left (.either first second) s xs t
  | done {left : List Tree} {body : Pattern R} {s : List Char} :
      Reads rules left (.many body) s [] s
  | again {left xs ys : List Tree} {body : Pattern R} {s t u : List Char}
      (hbody : Reads rules left body s xs t) (hrest : Reads rules left (.many body) t ys u) :
      Reads rules left (.many body) s (xs ++ ys) u
  | rule {left xs : List Tree} {r : R} {s t : List Char}
      (hrule : Reads rules left (rules r) s xs t) : Reads rules left (.rule r) s xs t
  | node {left xs : List Tree} {kind : Kind} {body : Pattern R} {s t : List Char}
      (hbody : Reads rules left body s xs t) :
      Reads rules left (.node kind body) s (wrap kind xs) t
  | field {left xs : List Tree} {f : Field} {body : Pattern R} {s t : List Char}
      (hbody : Reads rules left body s xs t) :
      Reads rules left (.field f body) s (asField f xs) t
  | base {left xs : List Tree} {base step : Pattern R} {s t : List Char}
      (hbase : Reads rules left base s xs t) : Reads rules left (.grow base step) s xs t
  | grown {left xs ys : List Tree} {base step : Pattern R} {s t u : List Char}
      (hbefore : Reads rules left (.grow base step) s xs t) (hstep : Reads rules xs step t ys u) :
      Reads rules left (.grow base step) s (graft xs ys) u
  | after {left xs : List Tree} {suits : Kind → Bool} {body : Pattern R} {s t : List Char}
      (hsuits : suits (lastKind left)) (hbody : Reads rules left body s xs t) :
      Reads rules left (.after suits body) s xs t
  | only {left xs : List Tree} {suits : Kind → Bool} {body : Pattern R} {s t : List Char}
      (hsuits : suits (lastKind xs)) (hbody : Reads rules left body s xs t) :
      Reads rules left (.only suits body) s xs t
  | ahead {left xs : List Tree} {body : Pattern R} {s t : List Char}
      (hbody : Reads rules left body s xs t) : Reads rules left (.ahead body) s [] s
  | absent {left : List Tree} {body : Pattern R} {s : List Char} :
      Reads rules left (.absent body) s [] s
  | guard {left : List Tree} {test : Test} {s : List Char} (htest : test.holds s) :
      Reads rules left (.guard test) s [] s

namespace Reads

variable {rules : R → Pattern R} {left xs : List Tree} {p : Pattern R} {s t : List Char}

/-- What is read and grown to a depth are readings. -/
theorem of_read_and_grown (fuel : Nat) :
    (∀ left p s xs t, read rules fuel left p s = some (xs, t) → Reads rules left p s xs t) ∧
    ∀ left base step s xs t ys u, Reads rules left (.grow base step) s xs t →
      Pattern.grown rules fuel xs step t = some (ys, u) →
        Reads rules left (.grow base step) s ys u := by
  induction fuel with
  | zero => simp [read, Pattern.grown]
  | succ fuel ih =>
    obtain ⟨ihRead, ihGrown⟩ := ih
    constructor
    · intro left p s xs t h
      cases p with
      | empty =>
        rw [read] at h
        cases h
        exact .empty
      | token lead kind scan =>
        rw [read] at h
        exact .token h
      | seq first second =>
        rw [read] at h
        split at h
        · cases h
        · rename_i hfirst
          split at h
          · cases h
          · rename_i hsecond
            cases h
            exact .seq (ihRead _ _ _ _ _ hfirst) (ihRead _ _ _ _ _ hsecond)
      | either first second =>
        rw [read] at h
        split at h
        · exact .second (ihRead _ _ _ _ _ h)
        · rename_i hfirst
          cases h
          exact .first (ihRead _ _ _ _ _ hfirst)
      | many body =>
        rw [read] at h
        split at h
        · cases h
          exact .done
        · rename_i hbody
          split at h
          · cases h
          · rename_i hrest
            cases h
            exact .again (ihRead _ _ _ _ _ hbody) (ihRead _ _ _ _ _ hrest)
      | rule r =>
        rw [read] at h
        exact .rule (ihRead _ _ _ _ _ h)
      | node kind body =>
        simp only [read, Option.map_eq_some_iff, Prod.mk.injEq, Prod.exists] at h
        obtain ⟨ys, u, hbody, rfl, rfl⟩ := h
        exact .node (ihRead _ _ _ _ _ hbody)
      | field f body =>
        simp only [read, Option.map_eq_some_iff, Prod.mk.injEq, Prod.exists] at h
        obtain ⟨ys, u, hbody, rfl, rfl⟩ := h
        exact .field (ihRead _ _ _ _ _ hbody)
      | grow base step =>
        rw [read] at h
        split at h
        · cases h
        · rename_i hbase
          exact ihGrown _ _ _ _ _ _ _ _ (.base (ihRead _ _ _ _ _ hbase)) h
      | after suits body =>
        rw [read] at h
        split at h
        · rename_i hsuits
          exact .after hsuits (ihRead _ _ _ _ _ h)
        · cases h
      | only suits body =>
        rw [read] at h
        split at h
        · cases h
        · rename_i hbody
          split at h
          · rename_i hsuits
            cases h
            exact .only hsuits (ihRead _ _ _ _ _ hbody)
          · cases h
      | ahead body =>
        simp only [read, Option.map_eq_some_iff, Prod.mk.injEq, Prod.exists] at h
        obtain ⟨ys, u, hbody, rfl, rfl⟩ := h
        exact .ahead (ihRead _ _ _ _ _ hbody)
      | absent body =>
        rw [read] at h
        split at h
        · cases h
          exact .absent
        · cases h
      | guard test =>
        rw [read] at h
        split at h
        · rename_i htest
          cases h
          exact .guard htest
        · cases h
    · intro left base step s xs t ys u hbefore h
      rw [Pattern.grown] at h
      split at h
      · cases h
        exact hbefore
      · rename_i hstep
        exact ihGrown _ _ _ _ _ _ _ _ (.grown hbefore (ihRead _ _ _ _ _ hstep)) h

/-- **What is read to some depth** is a reading. -/
theorem of_read {fuel : Nat} (h : read rules fuel left p s = some (xs, t)) :
    Reads rules left p s xs t :=
  (of_read_and_grown fuel).1 _ _ _ _ _ h

/-- **Nothing is lost**: the trees of a reading hold exactly the characters passed. -/
theorem chars (h : Reads rules left p s xs t) : Tree.charsAll xs ++ t = s := by
  induction h with
  | empty | done | ahead | absent | guard => rfl
  | token htoken => exact readToken_chars htoken
  | seq _ _ ihFirst ihSecond => rw [Tree.charsAll_append, List.append_assoc, ihSecond, ihFirst]
  | again _ _ ihBody ihRest => rw [Tree.charsAll_append, List.append_assoc, ihRest, ihBody]
  | first _ ih | second _ ih | rule _ ih | base _ ih | after _ _ ih | only _ _ ih => exact ih
  | node _ ih => rwa [charsAll_wrap]
  | field _ ih => rwa [charsAll_asField]
  | grown _ _ ihBefore ihStep => rw [charsAll_graft, List.append_assoc, ihStep, ihBefore]

/-- No reading leaves more text than there was. -/
theorem length_le (h : Reads rules left p s xs t) : t.length ≤ s.length := by
  have hchars := congrArg List.length h.chars
  rw [List.length_append] at hchars
  omega

end Reads

end Pattern

end ThemeOverride.Script
