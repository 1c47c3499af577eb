import ThemeOverride.Proofs.Script.Readings

/-!
# The depth of readings

A text is read to a bounded depth. The bound does not decide what is read: every rule that calls
itself takes a character before it does, so that a text of a given length is read to a depth that
its length determines, and reading it to any greater depth gives the same.

## Main definitions

* `ThemeOverride.Script.Scanner.takes` — all that a scanner finds holds a character.
* `ThemeOverride.Script.Bounds` — for each rule, whether it takes a character, and how deep it is
  read until it does.
* `ThemeOverride.Script.Pattern.takes`, `height`, `fits` — the same for a pattern, and what makes
  its loops end.

## Main results

* `ThemeOverride.Script.Pattern.Reads.length_lt` — a pattern that takes a character leaves less
  text.
* `ThemeOverride.Script.Pattern.read_stable` — a depth in proportion to the length is enough.
* `ThemeOverride.Script.readForm_eq` — scripts are read alike at every greater depth.

## Design

The height of a pattern counts the calls until a character is taken. After that at most as many
calls follow as before, with less text left, so that the depth is bounded by the length of the
text times the greatest height. The bounds of the grammar are a table with some room, checked
against the pattern of each rule; a rule that called itself without taking a character would have
no height.
-/

namespace ThemeOverride.Script

/-! ## Scanners -/

/-- Whether all that a scanner finds holds a character. -/
def Scanner.takes : Scanner → Bool
  | .keyword w | .mark w | .operator w => w != ""
  | .implied _ | .finish => false
  | _ => true

lemma length_pos_of_ne {w : String} (h : (w != "") = true) : 0 < w.length := by
  rw [bne_iff_ne] at h
  rw [← String.length_toList]
  exact List.length_pos_iff.mpr fun h0 => h (String.toList_eq_nil_iff.mp h0)

lemma unicodeEscapeLength_pos {s : List Char} {n : Nat} (h : unicodeEscapeLength s = some n) :
    0 < n := by
  unfold unicodeEscapeLength at h
  split at h
  · dsimp only at h
    split at h
    · cases h
      omega
    · cases h
  · split at h
    · cases h
      omega
    · cases h
  · cases h

lemma wordLength_pos {s : List Char} {n : Nat} (h : wordLength s = some n) : 0 < n := by
  unfold wordLength at h
  split at h
  · cases h
  · split at h
    · cases h
      omega
    · obtain ⟨m, hm, rfl⟩ := Option.map_eq_some_iff.mp h
      have := unicodeEscapeLength_pos hm
      omega

lemma runOf_pos {p : Char → Bool} {s : List Char} {n : Nat} (h : runOf p s = some n) : 0 < n := by
  unfold runOf at h
  split at h
  · cases h
  · rename_i hne
    cases h
    exact Nat.pos_of_ne_zero hne

/-- An operator is one of the listed ones or the mark of an optional chain, so it has
characters. -/
lemma operatorAt_length_pos {s : List Char} {o : String} (h : operatorAt s = some o) :
    0 < o.length := by
  have hall : ∀ o ∈ operators, 0 < o.length := by decide
  unfold operatorAt at h
  split at h
  · split at h <;> cases h <;> decide
  · exact hall o (List.mem_of_find?_eq_some h)

lemma numberLength_pos {s : List Char} {n : Nat} (h : numberLength s = some n) : 0 < n := by
  have hradix : ∀ letters digit, radixLength letters digit s = some n → 0 < n := by
    intro letters digit h
    unfold radixLength at h
    split at h
    · simp only [Option.ite_none_right_eq_some, Option.some.injEq] at h
      omega
    · cases h
  have hdecimal : decimalLength s = some n → 0 < n := by
    intro h
    unfold decimalLength at h
    dsimp only at h
    split at h
    · simp only [Option.ite_none_left_eq_some, Option.some.injEq] at h
      omega
    · simp only [Option.ite_none_left_eq_some, Option.some.injEq] at h
      omega
    · simp only [Option.ite_none_left_eq_some, Option.some.injEq, beq_iff_eq] at h
      omega
  unfold numberLength at h
  simp only [Option.or_eq_some_iff] at h
  rcases h with h | ⟨-, h | ⟨-, h | ⟨-, h⟩⟩⟩
  · exact hradix _ _ h
  · exact hradix _ _ h
  · exact hradix _ _ h
  · exact hdecimal h

lemma escapeLength_pos {s : List Char} {n : Nat} (h : escapeLength s = some n) : 0 < n := by
  unfold escapeLength at h
  split at h
  · cases h
    omega
  · split at h <;> cases h
    omega
  · cases h
  · exact unicodeEscapeLength_pos h
  · split at h <;> cases h <;> omega
  · cases h

lemma commentLength_pos {s : List Char} {n : Nat} (h : commentLength s = some n) : 0 < n := by
  unfold commentLength at h
  split at h
  · cases h
    omega
  · obtain ⟨m, -, rfl⟩ := Option.map_eq_some_iff.mp h
    omega
  · cases h

lemma markupNameLength_pos {s : List Char} {n : Nat} (h : markupNameLength s = some n) :
    0 < n := by
  unfold markupNameLength at h
  dsimp only at h
  split at h
  · rename_i hcond
    cases h
    rw [Bool.and_eq_true] at hcond
    refine Nat.pos_of_ne_zero fun h0 => ?_
    rw [h0, List.take_zero] at hcond
    exact absurd hcond.2 (by decide)
  · exact wordLength_pos h

lemma characterReferenceLength_pos {s : List Char} {n : Nat}
    (h : characterReferenceLength s = some n) : 0 < n := by
  have hclosing : ∀ before count most rest,
      characterReferenceLength.closing before count most rest = some n → 0 < n := by
    intro before count most rest h
    unfold characterReferenceLength.closing at h
    simp only [Option.ite_none_right_eq_some, Option.some.injEq] at h
    omega
  unfold characterReferenceLength at h
  split at h
  · split at h
    · exact hclosing _ _ _ _ h
    · exact hclosing _ _ _ _ h
  · exact hclosing _ _ _ _ h
  · cases h

lemma markupTextLength_pos {s : List Char} {n : Nat} (h : markupTextLength s = some n) :
    0 < n := by
  unfold markupTextLength at h
  dsimp only at h
  split at h
  · rename_i hshows
    cases h
    refine Nat.pos_of_ne_zero fun h0 => ?_
    rw [List.length_eq_zero_iff.mp h0] at hshows
    exact absurd hshows (by decide)
  · cases h

/-- What a scanner that takes finds holds a character. -/
lemma Scanner.length_pos {scan : Scanner} (ht : scan.takes) {s : List Char} {n : Nat}
    (h : scan.length s = some n) : 0 < n := by
  cases scan with
  | keyword w =>
    simp only [length, Script.keyword, Option.ite_none_right_eq_some, Option.some.injEq] at h
    have := length_pos_of_ne ht
    omega
  | word => exact wordLength_pos h
  | nameExcept words => exact wordLength_pos (Option.filter_eq_some_iff.mp h).1
  | nameAmong words => exact wordLength_pos (Option.filter_eq_some_iff.mp h).1
  | privateName =>
    simp only [length] at h
    unfold privateNameLength at h
    split at h
    · obtain ⟨m, -, rfl⟩ := Option.map_eq_some_iff.mp h
      omega
    · cases h
  | mark m =>
    simp only [length, Script.mark, Option.ite_none_right_eq_some, Option.some.injEq] at h
    have := length_pos_of_ne ht
    omega
  | operator o =>
    simp only [length, Script.operator, Option.ite_none_right_eq_some, Option.some.injEq] at h
    have := length_pos_of_ne ht
    omega
  | operatorAmong os =>
    simp only [length, Script.operatorAmong, Option.bind_eq_some_iff] at h
    obtain ⟨o, ho, hn⟩ := h
    have := operatorAt_length_pos ho
    simp only [Option.ite_none_right_eq_some, Option.some.injEq] at hn
    omega
  | number => exact numberLength_pos h
  | comment => exact commentLength_pos h
  | stringFragment quote => exact runOf_pos h
  | escape => exact escapeLength_pos h
  | templateFragment =>
    have := (Option.filter_eq_some_iff.mp h).2
    exact Nat.pos_of_ne_zero (bne_iff_ne.mp this)
  | regexPattern =>
    have := (Option.filter_eq_some_iff.mp h).2
    exact Nat.pos_of_ne_zero (bne_iff_ne.mp this)
  | regexFlags => exact runOf_pos h
  | implied place => cases ht
  | hashBang =>
    simp only [length, Option.ite_none_right_eq_some, Option.some.injEq] at h
    obtain ⟨hb, rfl⟩ := h
    obtain ⟨rest, rfl⟩ := List.isPrefixOf_iff_prefix.mp hb
    have : ("#!".toList ++ rest).takeWhile (· != '\n') ≠ [] := by
      simp [List.takeWhile]
    exact List.length_pos_iff.mpr this
  | finish => cases ht
  | markupName => exact markupNameLength_pos h
  | attributeFragment quote =>
    simp only [length] at h
    split at h
    · cases h
    · rename_i hne
      cases h
      exact Nat.pos_of_ne_zero hne
  | characterReference => exact characterReferenceLength_pos h
  | markupText => exact markupTextLength_pos h

/-- A scanner that takes finds nothing at the end of the text. -/
lemma Scanner.length_nil {scan : Scanner} (ht : scan.takes) : scan.length [] = none := by
  have hne : ∀ w : String, (w != "") = true → w.toList ≠ [] := fun w hw h0 =>
    bne_iff_ne.mp hw (String.toList_eq_nil_iff.mp h0)
  cases scan with
  | keyword w =>
    have := hne w ht
    simpa [length, Script.keyword, wordAt, wordLength] using this
  | mark m =>
    have := hne m ht
    simp [length, Script.mark, List.isPrefixOf_iff_prefix, this]
  | operator o =>
    have : operatorAt [] = none := by decide
    simp [length, Script.operator, this]
  | operatorAmong os =>
    have : operatorAt [] = none := by decide
    simp [length, Script.operatorAmong, this]
  | number => decide
  | regexPattern => decide
  | implied place => cases ht
  | finish => cases ht
  | _ => rfl

lemma skipLead_length_le (lead : Lead) (s : List Char) : (skipLead lead s).2.2.length ≤ s.length := by
  have h := congrArg List.length (skipLead_append lead s)
  rw [List.length_append, List.length_append] at h
  omega

/-- A token of a scanner that takes leaves less text. -/
lemma readToken_lt {lead : Lead} {kind : Kind} {scan : Scanner} (ht : scan.takes)
    {s t : List Char} {trees : List Tree} (h : readToken lead kind scan s = some (trees, t)) :
    t.length < s.length := by
  simp only [readToken, Option.map_eq_some_iff, Prod.mk.injEq] at h
  obtain ⟨n, hn, -, rfl⟩ := h
  have hle := skipLead_length_le lead s
  have hpos := Scanner.length_pos ht hn
  have hne : (skipLead lead s).2.2 ≠ [] := by
    intro h0
    rw [h0, Scanner.length_nil ht] at hn
    cases hn
  have := List.length_pos_iff.mpr hne
  change ((skipLead lead s).2.2.drop n).length < s.length
  rw [List.length_drop]
  omega

/-! ## Patterns -/

/-- What is known of the rules of a grammar: whether all that a rule reads holds a character, and
how many calls its reading needs at most until it takes one. -/
structure Bounds (R : Type) where
  takes : R → Bool
  height : R → Nat

namespace Pattern

variable {R : Type} (bounds : Bounds R)

/-- Whether all that a pattern reads holds a character. -/
def takes : Pattern R → Bool
  | token _ _ scan => scan.takes
  | seq first second => first.takes || second.takes
  | either first second => first.takes && second.takes
  | rule r => bounds.takes r
  | node _ body | field _ body | after _ body | only _ body => body.takes
  | grow base _ => base.takes
  | empty | many _ | ahead _ | absent _ | guard _ => false

/-- How many calls the reading of a pattern needs at most until it takes a character. -/
def height : Pattern R → Nat
  | empty | token .. | guard _ => 1
  | seq first second =>
    1 + max first.height (if first.takes bounds then 0 else second.height)
  | either first second => 1 + max first.height second.height
  | rule r => 1 + bounds.height r
  | many body | node _ body | field _ body | after _ body | only _ body | ahead body
  | absent body => 1 + body.height
  | grow base step => 1 + max base.height (if base.takes bounds then 0 else 1 + step.height)

/-- Whether each round of a loop takes a character, and no part of the pattern that may begin
after a character has a greater height than `most`. -/
def fits (most : Nat) : Pattern R → Bool
  | empty | token .. | guard _ | rule _ => true
  | seq first second =>
    first.fits most && second.fits most && decide (second.height bounds ≤ most)
  | either first second => first.fits most && second.fits most
  | many body =>
    body.takes bounds && body.fits most && decide (1 + body.height bounds ≤ most)
  | node _ body | field _ body | after _ body | only _ body | ahead body | absent body =>
    body.fits most
  | grow base step =>
    base.fits most && step.takes bounds && step.fits most &&
      decide (1 + step.height bounds ≤ most)

lemma one_le_height (p : Pattern R) : 1 ≤ p.height bounds := by
  cases p <;> simp [height]

end Pattern

/-- The bounds hold of a grammar, and no height in it is greater than `most`. -/
structure Bounds.Hold {R : Type} (bounds : Bounds R) (rules : R → Pattern R) (most : Nat) : Prop where
  takes : ∀ r, bounds.takes r → (rules r).takes bounds
  height : ∀ r, (rules r).height bounds ≤ bounds.height r
  fits : ∀ r, (rules r).fits bounds most

namespace Pattern

variable {R : Type} {bounds : Bounds R} {rules : R → Pattern R} {most : Nat}

/-- **Taking a character.** A pattern that takes a character leaves less text than there was. -/
theorem Reads.length_lt (hold : bounds.Hold rules most) {left xs : List Tree} {p : Pattern R}
    {s t : List Char} (h : Reads rules left p s xs t) (hp : p.takes bounds) :
    t.length < s.length := by
  induction h with
  | token htoken => exact readToken_lt hp htoken
  | seq hfirst hsecond ihFirst ihSecond =>
    rcases (Bool.or_eq_true _ _).mp hp with hp | hp
    · exact Nat.lt_of_le_of_lt hsecond.length_le (ihFirst hp)
    · exact Nat.lt_of_lt_of_le (ihSecond hp) hfirst.length_le
  | first _ ih => exact ih ((Bool.and_eq_true _ _).mp hp).1
  | second _ ih => exact ih ((Bool.and_eq_true _ _).mp hp).2
  | rule _ ih => exact ih (hold.takes _ hp)
  | node _ ih | field _ ih | base _ ih | after _ _ ih | only _ _ ih => exact ih hp
  | grown _ hstep ih _ => exact Nat.lt_of_le_of_lt hstep.length_le (ih hp)
  | empty | done | again | ahead | absent | guard => cases hp

/-- **A depth that is enough.** To a depth in proportion to the length of the text, a pattern reads
what it reads to the next greater depth.

**Proof sketch.** Induction on the depth. A part that begins where the whole begins has a smaller
height. A part that begins after a character was taken has any height up to `most`, but less text
by at least one character, which makes up for it. -/
theorem read_succ (hold : bounds.Hold rules most) (fuel : Nat) :
    (∀ left p s, p.fits bounds most → most * s.length + p.height bounds ≤ fuel →
      read rules (fuel + 1) left p s = read rules fuel left p s) ∧
    ∀ left step s, step.takes bounds → step.fits bounds most → 1 + step.height bounds ≤ most →
      most * s.length + (1 + step.height bounds) ≤ fuel →
      grown rules (fuel + 1) left step s = grown rules fuel left step s := by
  -- what is left after a character was taken is read to a depth that is enough
  have hless : ∀ {s t : List Char} {h : Nat}, t.length < s.length → h ≤ most →
      most * t.length + h ≤ most * s.length := by
    intro s t h hlt hh
    calc most * t.length + h ≤ most * t.length + most := Nat.add_le_add_left hh _
      _ = most * (t.length + 1) := (Nat.mul_succ _ _).symm
      _ ≤ most * s.length := Nat.mul_le_mul_left _ hlt
  have hsame : ∀ {s t : List Char} {h : Nat}, t.length ≤ s.length →
      most * t.length + h ≤ most * s.length + h := fun hle =>
    Nat.add_le_add_right (Nat.mul_le_mul_left _ hle) _
  induction fuel with
  | zero =>
    refine ⟨fun left p s _ hfuel => ?_, fun left step s _ _ _ hfuel => ?_⟩
    · have := one_le_height bounds p
      omega
    · omega
  | succ fuel ih =>
    obtain ⟨ihRead, ihGrown⟩ := ih
    constructor
    · intro left p s hp hfuel
      cases p with
      | empty => simp only [read]
      | token lead kind scan => simp only [read]
      | guard test => simp only [read]
      | seq first second =>
        simp only [fits, Bool.and_eq_true, decide_eq_true_eq] at hp
        obtain ⟨⟨hfirst, hsecond⟩, hmost⟩ := hp
        simp only [height] at hfuel
        rw [read, read, ihRead left first s hfirst (by omega)]
        cases hread : read rules fuel left first s with
        | none => rfl
        | some r =>
          obtain ⟨xs, t⟩ := r
          have hnext : most * t.length + second.height bounds ≤ fuel := by
            by_cases htakes : first.takes bounds
            · have := hless ((Reads.of_read hread).length_lt hold htakes) hmost
              omega
            · rw [if_neg htakes] at hfuel
              have := hsame (h := second.height bounds) (Reads.of_read hread).length_le
              omega
          simp only [ihRead left second t hsecond hnext]
      | either first second =>
        simp only [fits, Bool.and_eq_true] at hp
        simp only [height] at hfuel
        rw [read, read, ihRead left first s hp.1 (by omega), ihRead left second s hp.2 (by omega)]
      | many body =>
        have hmany := hp
        simp only [fits, Bool.and_eq_true, decide_eq_true_eq] at hp
        obtain ⟨⟨htakes, hbody⟩, hmost⟩ := hp
        simp only [height] at hfuel
        rw [read, read, ihRead left body s hbody (by omega)]
        cases hread : read rules fuel left body s with
        | none => rfl
        | some r =>
          obtain ⟨xs, t⟩ := r
          have hnext := hless ((Reads.of_read hread).length_lt hold htakes) hmost
          simp only [ihRead left (many body) t hmany (by simp only [height]; omega)]
      | rule r =>
        simp only [height] at hfuel
        have hr := hold.height r
        rw [read, read, ihRead left (rules r) s (hold.fits r) (by omega)]
      | node kind body =>
        simp only [height] at hfuel
        rw [read, read, ihRead left body s hp (by omega)]
      | field f body =>
        simp only [height] at hfuel
        rw [read, read, ihRead left body s hp (by omega)]
      | grow base step =>
        simp only [fits, Bool.and_eq_true, decide_eq_true_eq] at hp
        obtain ⟨⟨⟨hbase, htakes⟩, hstep⟩, hmost⟩ := hp
        simp only [height] at hfuel
        rw [read, read, ihRead left base s hbase (by omega)]
        cases hread : read rules fuel left base s with
        | none => rfl
        | some r =>
          obtain ⟨xs, t⟩ := r
          have hnext : most * t.length + (1 + step.height bounds) ≤ fuel := by
            by_cases hb : base.takes bounds
            · have := hless ((Reads.of_read hread).length_lt hold hb) hmost
              omega
            · rw [if_neg hb] at hfuel
              have := hsame (h := 1 + step.height bounds) (Reads.of_read hread).length_le
              omega
          exact ihGrown xs step t htakes hstep hmost hnext
      | after suits body =>
        simp only [height] at hfuel
        rw [read, read, ihRead left body s hp (by omega)]
      | only suits body =>
        simp only [height] at hfuel
        rw [read, read, ihRead left body s hp (by omega)]
      | ahead body =>
        simp only [height] at hfuel
        rw [read, read, ihRead left body s hp (by omega)]
      | absent body =>
        simp only [height] at hfuel
        rw [read, read, ihRead left body s hp (by omega)]
    · intro left step s htakes hstep hmost hfuel
      rw [grown, grown, ihRead left step s hstep (by omega)]
      cases hread : read rules fuel left step s with
      | none => rfl
      | some r =>
        obtain ⟨xs, t⟩ := r
        have hnext := hless ((Reads.of_read hread).length_lt hold htakes) hmost
        exact ihGrown (graft left xs) step t htakes hstep hmost (by omega)

/-- A depth that is enough may be any greater. -/
theorem read_stable (hold : bounds.Hold rules most) {left : List Tree} {p : Pattern R}
    {s : List Char} (hp : p.fits bounds most) {low high : Nat}
    (hlow : most * s.length + p.height bounds ≤ low) (hhigh : low ≤ high) :
    read rules high left p s = read rules low left p s := by
  induction hhigh with
  | refl => rfl
  | step hle ih => rw [(read_succ hold _).1 left p s hp (Nat.le_trans hlow hle), ih]

end Pattern

/-! ## The rules of the grammar -/

namespace Rule

/-- All that may surround an expression. -/
def scopes : List Scope := [⟨false, false⟩, ⟨false, true⟩, ⟨true, false⟩, ⟨true, true⟩]

/-- All places at which a statement may end. -/
def places : List Ending := [⟨false, false⟩, ⟨false, true⟩, ⟨true, false⟩, ⟨true, true⟩]

/-- The rules of the grammar, but for operands, which there are for every level, and object types,
which there are for every kind of node. -/
def others : List Rule :=
  [statement, declaration, declarator, declarationList, moduleName, propertyDefinition, arguments,
   pattern, target, destructuring, objectMember, propertyName, template, string, parameters,
   parameter, decorator, classMember, element, markupName, markupAttribute, markupChild,
   markupContainer, typeArguments, typeParameters, typeMember, tupleMember] ++
  ([false, true].flatMap fun operand =>
    [block operand, blockEnd operand, functionRest operand, classRest operand]) ++
  places.map terminator ++
  (scopes.flatMap fun scope =>
    [expressions scope, expression scope, unary scope, chain scope, primary scope, arrow scope,
     callee scope]) ++
  (none :: places.map some).flatMap fun ending =>
    [signature ending, type ending, plainType ending, intersection ending, postfixType ending,
     primaryType ending]

/-- **What holds of all rules** is what holds of operands, of object types and of the others. -/
theorem forall_of_others {motive : Rule → Prop}
    (operand : ∀ level scope, motive (.operand level scope))
    (objectType : ∀ kind, motive (.objectType kind)) (other : ∀ r ∈ others, motive r) (r : Rule) :
    motive r := by
  cases r with
  | operand level scope => exact operand level scope
  | objectType kind => exact objectType kind
  | block operand | blockEnd operand | functionRest operand | classRest operand =>
    cases operand <;> exact other _ (by decide)
  | terminator place =>
    obtain ⟨operand, functionHead⟩ := place
    cases operand <;> cases functionHead <;> exact other _ (by decide)
  | expressions scope | expression scope | unary scope | chain scope | primary scope
  | arrow scope | callee scope =>
    obtain ⟨terminable, arrowTypes⟩ := scope
    cases terminable <;> cases arrowTypes <;> exact other _ (by decide)
  | signature ending | type ending | plainType ending | intersection ending | postfixType ending
  | primaryType ending =>
    cases ending with
    | none => exact other _ (by decide)
    | some place =>
      obtain ⟨operand, functionHead⟩ := place
      cases operand <;> cases functionHead <;> exact other _ (by decide)
  | _ => exact other _ (by decide)

end Rule

/-! ## The grammar of scripts -/

namespace Rule

/-- The bounds of the grammar, with some room. Rules of which one may begin another have greater
bounds the more they hold. -/
def bounds : Bounds Rule where
  takes
    | terminator _ | blockEnd _ => false
    | _ => true
  height
    | statement => 120
    | expressions _ | tupleMember => 80
    | expression _ | operand .. | type _ => 70
    | unary _ | plainType _ => 60
    | chain _ | callee _ | intersection _ => 50
    | primary _ | postfixType _ => 45
    | primaryType _ => 40
    | classMember | typeMember | declaration | parameter => 40
    | propertyDefinition | objectMember => 30
    | declarationList | pattern | markupChild | functionRest _ => 25
    | declarator | arrow _ | signature _ | moduleName | propertyName => 20
    | markupAttribute | target | classRest _ => 15
    | _ => 10

end Rule

namespace Form

open Pattern

variable {bounds : Bounds Rule} {most : Nat}

/-- A choice among patterns that take a character takes one, and its height is that of the
patterns and of the choice. -/
lemma firstOf_bounds {forms : List Form} {height : Nat}
    (h : ∀ p ∈ forms, p.takes bounds ∧ p.height bounds ≤ height ∧ p.fits bounds most) :
    (firstOf forms).takes bounds ∧ (firstOf forms).height bounds ≤ 1 + forms.length + height ∧
      (firstOf forms).fits bounds most := by
  induction forms with
  | nil => exact ⟨rfl, by simp [firstOf, never, Pattern.height], rfl⟩
  | cons p rest ih =>
    obtain ⟨htakes, hheight, hfits⟩ := h p List.mem_cons_self
    cases rest with
    | nil => exact ⟨htakes, by simp only [firstOf]; omega, hfits⟩
    | cons q rest =>
      obtain ⟨htakes', hheight', hfits'⟩ := ih fun p hp => h p (List.mem_cons_of_mem _ hp)
      simp only [List.length_cons] at hheight' ⊢
      refine ⟨?_, ?_, ?_⟩
      · simp only [firstOf, Pattern.takes, Bool.and_eq_true]
        exact ⟨htakes, htakes'⟩
      · simp only [firstOf, Pattern.height]
        omega
      · simp only [firstOf, Pattern.fits, Bool.and_eq_true]
        exact ⟨hfits, hfits'⟩

/-- The steps of a row of operands, from any level on. -/
lemma binarySteps_bounds (level : Nat) (scope : Rule.Scope) :
    (binarySteps level scope).takes Rule.bounds ∧
      (binarySteps level scope).height Rule.bounds ≤ 30 ∧
      (binarySteps level scope).fits Rule.bounds 200 := by
  have hstep : ∀ o ∈ binaryOperators.filter fun o => decide (level ≤ o.1),
      let step : Form := .node .binary
        (.seq (firstOf (ops o.2.1 :: o.2.2.map word)) (rule (.operand (o.1 + 1) scope)))
      step.takes Rule.bounds ∧ step.height Rule.bounds ≤ 10 ∧ step.fits Rule.bounds 200 := by
    intro o ho
    have hmem := (List.mem_filter.mp ho).1
    simp only [binaryOperators, List.mem_cons, List.not_mem_nil, or_false] at hmem
    rcases hmem with rfl | rfl | rfl | rfl | rfl | rfl | rfl | rfl | rfl | rfl | rfl <;>
      exact ⟨rfl, Nat.le_of_ble_eq_true rfl, rfl⟩
  have hlength : (binaryOperators.filter fun o => decide (level ≤ o.1)).length ≤ 11 :=
    List.length_filter_le _ _
  unfold binarySteps
  obtain ⟨htakes, hheight, hfits⟩ := firstOf_bounds (List.forall_mem_map.mpr hstep)
  rw [List.length_map] at hheight
  refine ⟨?_, ?_, ?_⟩
  · exact (Bool.and_eq_true _ _).mpr ⟨htakes, rfl⟩
  · have hpower : (Pattern.node .binary (.seq (op "**") (rule (.operand 12 scope)))).height
        Rule.bounds ≤ 10 := Nat.le_of_ble_eq_true rfl
    exact Nat.add_le_add_left (k := 1) (m := 29)
      (Nat.max_le.mpr ⟨Nat.le_trans hheight (by omega), Nat.le_trans hpower (by omega)⟩)
  · exact (Bool.and_eq_true _ _).mpr ⟨hfits, rfl⟩

/-- A row of operands, from any level on. -/
lemma operand_bounds (level : Nat) (scope : Rule.Scope) :
    (operand level scope).height Rule.bounds ≤ 70 ∧ (operand level scope).fits Rule.bounds 200 := by
  obtain ⟨htakes, hheight, hfits⟩ := binarySteps_bounds level scope
  refine ⟨Nat.le_of_ble_eq_true rfl, ?_⟩
  have hgoes : (goesOn scope.ending).fits Rule.bounds 200 ∧
      (goesOn scope.ending).height Rule.bounds ≤ 1 := by
    cases scope.ending <;> exact ⟨rfl, Nat.le_refl _⟩
  have hstep : (expressionStep scope (binarySteps level scope)).height Rule.bounds ≤ 31 := by
    refine Nat.add_le_add_left (k := 1) (m := 30) (Nat.max_le.mpr ⟨by omega, ?_⟩)
    split <;> omega
  unfold operand
  simp only [Pattern.fits, expressionStep, Pattern.takes, Bool.and_eq_true, Bool.or_eq_true,
    decide_eq_true_eq]
  exact ⟨⟨⟨rfl, Or.inr htakes⟩, ⟨hgoes.1, hfits⟩, by omega⟩,
    decide_eq_true (Nat.le_trans (Nat.add_le_add_left hstep 1) (by decide))⟩

end Form

/-- The bounds hold of the grammar in both dialects. -/
theorem bounds_hold (dialect : Dialect) : Rule.bounds.Hold (grammar dialect) 200 := by
  have hall : ∀ r, (Rule.bounds.takes r → (grammar dialect r).takes Rule.bounds) ∧
      (grammar dialect r).height Rule.bounds ≤ Rule.bounds.height r ∧
      (grammar dialect r).fits Rule.bounds 200 := by
    refine Rule.forall_of_others (fun level scope => ?_) (fun kind => ?_) ?_
    · exact ⟨fun _ => rfl, Form.operand_bounds level scope⟩
    · exact ⟨fun _ => rfl, Nat.le_of_ble_eq_true rfl, rfl⟩
    · cases dialect <;> decide +kernel
  exact ⟨fun r => (hall r).1, fun r => (hall r).2.1, fun r => (hall r).2.2⟩

/-- The greatest height that a form may have for a script to be read deep enough. -/
lemma height_le_depth {height : Nat} (h : height ≤ 400) (s : List Char) :
    200 * s.length + height ≤ depthFor s := by
  unfold depthFor
  omega

/-- **The depth does not decide.** A form that begins no loop without taking a character, and
that begins within the depth for an empty text, reads a text alike to every depth from that of the
text on. -/
theorem readForm_eq {dialect : Dialect} {form : Form} (hfits : form.fits Rule.bounds 200)
    (hheight : form.height Rule.bounds ≤ 400) {s : List Char} {depth : Nat}
    (h : depthFor s ≤ depth) :
    form.read (grammar dialect) depth [] s = readForm dialect form s :=
  Pattern.read_stable (bounds_hold dialect) hfits (height_le_depth hheight s) h

end ThemeOverride.Script
