import ThemeOverride.Proofs.Script.Recovered

/-!
# Trees hold the text

The tree of a text holds the text, character for character, whether or not the grammar can read
it. So the places of the parts of a tree, which follow from the characters before them, are places
in the text.

## Main definitions

* `ThemeOverride.Script.IsSolid` — a stretch of a text without separators.
* `ThemeOverride.Script.EndsSolid` — a stretch of a text that does not end in a separator.

## Main results

* `ThemeOverride.Script.endsSolid_anyToken` — no token ends in a separator.
* `ThemeOverride.Script.chars_errorNode` — an error holds the characters it is made from, where
  the last of them is not a separator.
* `ThemeOverride.Script.chars_parse_prefix` — the tree of a text holds the characters that the text
  begins with.

## Design

What a reading by the grammar passes goes into its trees. An error, though, is made from a
stretch of text without regard to the grammar, and separators at its end are dropped. They never
are there: such a stretch ends where a token ends.
-/

namespace ThemeOverride.Script

open ThemeOverride.Script.Tree

/-! ## Stretches without separators -/

/-- The first `n` characters of a text are there, and none of them is a separator. -/
def IsSolid (n : Nat) (s : List Char) : Prop :=
  n ≤ s.length ∧ ∀ c ∈ s.take n, isSeparator c = false

/-- The `n`-th character of a text is there, and it is no separator. -/
def EndsSolid (n : Nat) (s : List Char) : Prop :=
  0 < n ∧ ∃ c ∈ (s.take n).getLast?, n ≤ s.length ∧ isSeparator c = false

namespace IsSolid

variable {m n : Nat} {s : List Char}

lemma zero (s : List Char) : IsSolid 0 s := ⟨Nat.zero_le _, by simp⟩

lemma add (hm : IsSolid m s) (hn : IsSolid n (s.drop m)) : IsSolid (m + n) s := by
  obtain ⟨hle, hsolid⟩ := hm
  obtain ⟨hle', hsolid'⟩ := hn
  rw [List.length_drop] at hle'
  refine ⟨by omega, fun c hc => ?_⟩
  rw [List.take_add] at hc
  exact (List.mem_append.mp hc).elim (hsolid c) (hsolid' c)

lemma cons {c : Char} (hc : isSeparator c = false) (hn : IsSolid n s) :
    IsSolid (n + 1) (c :: s) := by
  obtain ⟨hle, hsolid⟩ := hn
  refine ⟨by simpa using hle, fun d hd => ?_⟩
  rw [List.take_succ_cons] at hd
  rcases List.mem_cons.mp hd with rfl | hd
  · exact hc
  · exact hsolid d hd

lemma endsSolid (h : IsSolid n s) (hpos : 0 < n) : EndsSolid n s := by
  obtain ⟨hle, hsolid⟩ := h
  have hne : s.take n ≠ [] := by
    intro hnil
    have hlength := congrArg List.length hnil
    rw [List.length_take, List.length_nil] at hlength
    omega
  exact ⟨hpos, _, List.getLast?_eq_some_getLast hne, hle,
    hsolid _ (List.getLast_mem hne)⟩

end IsSolid

/-- What a stretch ends in is told from its end alone. -/
lemma EndsSolid.append {n : Nat} {s : List Char} (h : EndsSolid n s) (before : List Char) :
    EndsSolid (before.length + n) (before ++ s) := by
  obtain ⟨hpos, c, hc, hle, hsolid⟩ := h
  refine ⟨by omega, c, ?_, by rw [List.length_append]; omega, hsolid⟩
  rw [List.take_length_add_append, Option.mem_def, List.getLast?_append, Option.mem_def.mp hc]
  rfl

lemma EndsSolid.drop {m n : Nat} {s : List Char} (h : EndsSolid n s) (hm : m < n) :
    EndsSolid (n - m) (s.drop m) := by
  obtain ⟨-, c, hc, hle, hsolid⟩ := h
  refine ⟨by omega, c, ?_, by rw [List.length_drop]; omega, hsolid⟩
  rw [← List.drop_take, List.getLast?_drop, if_neg (by rw [List.length_take]; omega)]
  exact hc

lemma EndsSolid.cons {n : Nat} {s : List Char} (h : EndsSolid n s) (c : Char) :
    EndsSolid (n + 1) (c :: s) := by
  rw [Nat.add_comm]
  exact h.append [c]

/-! ## Words -/

/-- A character of ASCII that is neither a blank nor a control is no separator. -/
lemma isSeparator_of_ascii {c : Char} (h : 32 < c.toNat) (h' : c.toNat < 128) :
    isSeparator c = false := by
  have hblank : (c == ' ') = false := by
    rw [beq_eq_false_iff_ne]
    rintro rfl
    exact absurd h (by decide)
  unfold isSeparator
  rw [hblank]
  simp only [Bool.false_or, Bool.or_eq_false_iff, beq_eq_false_iff_ne, Bool.and_eq_false_iff,
    decide_eq_false_iff_not]
  omega

lemma isSeparator_isDigit {c : Char} (h : c.isDigit) : isSeparator c = false := by
  have hrange : 48 ≤ c.toNat ∧ c.toNat ≤ 57 := by
    simpa [Char.isDigit, UInt32.le_iff_toNat_le] using h
  exact isSeparator_of_ascii (by omega) (by omega)

lemma isSeparator_isHexDigit {c : Char} (h : isHexDigit c) : isSeparator c = false := by
  have hrange : 48 ≤ c.toNat ∧ c.toNat ≤ 102 := by
    simp only [isHexDigit, Char.isDigit, Bool.or_eq_true, Bool.and_eq_true, decide_eq_true_eq,
      Char.le_def, ge_iff_le, UInt32.le_iff_toNat_le] at h
    change (48 ≤ c.toNat ∧ c.toNat ≤ 57 ∨ 97 ≤ c.toNat ∧ c.toNat ≤ 102) ∨
      65 ≤ c.toNat ∧ c.toNat ≤ 70 at h
    omega
  exact isSeparator_of_ascii (by omega) (by omega)

lemma lt_toNat_of_isAlpha {c : Char} (h : c.isAlpha) : 64 < c.toNat := by
  change (c.isUpper || c.isLower) = true at h
  rcases (Bool.or_eq_true _ _).mp h with hupper | hlower
  · have hrange : 'A'.val ≤ c.val ∧ c.val ≤ 'Z'.val := of_decide_eq_true hupper
    exact hrange.1
  · have hle : 97 ≤ c.toNat := of_decide_eq_true ((Bool.and_eq_true _ _).mp hlower).1
    omega

lemma isSeparator_isNameStart {c : Char} (h : isNameStart c) : isSeparator c = false := by
  unfold isNameStart at h
  split at h
  · rename_i hascii
    have hrange : 32 < c.toNat := by
      simp only [Bool.or_eq_true, beq_iff_eq] at h
      rcases h with ((h | rfl) | rfl) | h
      · have := lt_toNat_of_isAlpha h
        omega
      · decide
      · decide
      · omega
    exact isSeparator_of_ascii hrange hascii
  · simpa using h

lemma isSeparator_isNamePart {c : Char} (h : isNamePart c) : isSeparator c = false := by
  unfold isNamePart at h
  rcases (Bool.or_eq_true _ _).mp h with h | h
  · exact isSeparator_isNameStart h
  · exact isSeparator_isDigit h

/-- A run of characters of a sort that holds no separators. -/
lemma isSolid_takeWhile {p : Char → Bool} (hp : ∀ c, p c → isSeparator c = false) (s : List Char) :
    IsSolid (s.takeWhile p).length s := by
  refine ⟨(List.takeWhile_prefix p).length_le, fun c hc => hp c ?_⟩
  rw [← List.prefix_iff_eq_take.mp (List.takeWhile_prefix p)] at hc
  exact List.mem_takeWhile_imp hc

lemma isSolid_unicodeEscapeLength {s : List Char} {n : Nat} (h : unicodeEscapeLength s = some n) :
    IsSolid n s ∧ 0 < n := by
  unfold unicodeEscapeLength at h
  split at h
  · rename_i rest
    dsimp only at h
    split at h
    · rename_i hdigits hclose
      cases h
      have hrest : IsSolid ((rest.takeWhile isHexDigit).length + 1) rest := by
        refine (isSolid_takeWhile (fun c => isSeparator_isHexDigit) rest).add ?_
        rw [hclose]
        exact (IsSolid.zero _).cons rfl
      exact ⟨((hrest.cons rfl).cons rfl).cons rfl, by omega⟩
    · cases h
  · rename_i a b c d tail _
    split at h
    · rename_i hall
      cases h
      simp only [Bool.and_eq_true] at hall
      obtain ⟨⟨⟨ha, hb⟩, hc⟩, hd⟩ := hall
      have hdigits := ((((IsSolid.zero tail).cons (isSeparator_isHexDigit hd)).cons
        (isSeparator_isHexDigit hc)).cons (isSeparator_isHexDigit hb)).cons
          (isSeparator_isHexDigit ha)
      exact ⟨(hdigits.cons rfl).cons rfl, by omega⟩
    · cases h
  · cases h

lemma isSolid_namePartsLength (fuel : Nat) (s : List Char) :
    IsSolid (namePartsLength fuel s) s := by
  induction fuel generalizing s with
  | zero =>
    rw [namePartsLength]
    exact IsSolid.zero s
  | succ fuel ih =>
    cases s with
    | nil =>
      rw [namePartsLength]
      · exact IsSolid.zero []
      · exact nofun
    | cons c rest =>
      rw [namePartsLength]
      split
      · rename_i hpart
        exact (ih rest).cons (isSeparator_isNamePart hpart)
      · split
        · rename_i n hescape
          rw [Nat.add_comm]
          exact (isSolid_unicodeEscapeLength hescape).1.add (ih _)
        · exact IsSolid.zero _

lemma isSolid_wordLength {s : List Char} {n : Nat} (h : wordLength s = some n) :
    IsSolid n s ∧ 0 < n := by
  unfold wordLength at h
  split at h
  · cases h
  · rename_i c rest
    split at h
    · rename_i hstart
      cases h
      exact ⟨(isSolid_namePartsLength _ rest).cons (isSeparator_isNameStart hstart), by omega⟩
    · obtain ⟨m, hm, rfl⟩ := Option.map_eq_some_iff.mp h
      obtain ⟨hsolid, hpos⟩ := isSolid_unicodeEscapeLength hm
      rw [Nat.add_comm]
      exact ⟨hsolid.add (isSolid_namePartsLength _ _), by omega⟩

/-! ## Numbers -/

section Digits

variable {digit : Char → Bool} (hdigit : ∀ c, digit c → isSeparator c = false)

include hdigit

lemma isSolid_digitsLength (s : List Char) : IsSolid (digitsLength digit s) s := by
  fun_induction digitsLength digit s with
  | case1 d rest hd ih => exact (ih.cons (hdigit d hd)).cons rfl
  | case2 => exact IsSolid.zero _
  | case3 d rest _ hd ih => exact ih.cons (hdigit d hd)
  | case4 => exact IsSolid.zero _
  | case5 => exact IsSolid.zero _

lemma isSolid_digitRun (s : List Char) : IsSolid (digitRun digit s) s := by
  unfold digitRun
  split
  · exact isSolid_digitsLength hdigit s
  · exact IsSolid.zero s

lemma isSolid_radixLength {letters : List Char} (hletters : letters.all (!isSeparator ·) = true)
    {s : List Char} {n : Nat} (h : radixLength letters digit s = some n) :
    IsSolid n s ∧ 0 < n := by
  unfold radixLength at h
  split at h
  · rename_i x rest
    dsimp only at h
    split at h
    · rename_i hletter
      cases h
      rw [Bool.and_eq_true, List.contains_iff_mem] at hletter
      have hrun := isSolid_digitRun hdigit rest
      have hsuffix : IsSolid (if (rest.drop (digitRun digit rest)).head? == some 'n' then 1 else 0)
          (rest.drop (digitRun digit rest)) := by
        split
        · rename_i hn
          obtain ⟨tail, htail⟩ := List.head?_eq_some_iff.mp (beq_iff_eq.mp hn)
          rw [htail]
          exact (IsSolid.zero tail).cons rfl
        · exact IsSolid.zero _
      have hx : isSeparator x = false := by simpa using List.all_eq_true.mp hletters x hletter.1
      have hall := ((hrun.add hsuffix).cons hx).cons (c := '0') rfl
      refine ⟨?_, by omega⟩
      have heq : digitRun digit rest +
          (if (rest.drop (digitRun digit rest)).head? == some 'n' then 1 else 0) + 1 + 1 =
        2 + digitRun digit rest +
          (if (rest.drop (digitRun digit rest)).head? == some 'n' then 1 else 0) := by omega
      rwa [heq] at hall
    · cases h
  · cases h

end Digits

lemma isSolid_exponentLength (s : List Char) : IsSolid (exponentLength s) s := by
  unfold exponentLength
  split
  · rename_i e rest
    split
    · rename_i he
      have hletter : isSeparator e = false := by
        rcases (Bool.or_eq_true _ _).mp he with he | he
        · rw [beq_iff_eq.mp he]; rfl
        · rw [beq_iff_eq.mp he]; rfl
      have hrun : ∀ sign, IsSolid sign rest →
          IsSolid (if digitRun Char.isDigit (rest.drop sign) == 0 then 0
            else 1 + sign + digitRun Char.isDigit (rest.drop sign)) (e :: rest) := by
        intro sign hsign
        split
        · exact IsSolid.zero _
        · have hall := (hsign.add
            (isSolid_digitRun (fun c => isSeparator_isDigit) (rest.drop sign))).cons hletter
          rwa [Nat.add_comm _ 1, ← Nat.add_assoc] at hall
      dsimp only
      split
      · exact hrun 1 ((IsSolid.zero _).cons rfl)
      · exact hrun 1 ((IsSolid.zero _).cons rfl)
      · exact hrun 0 (IsSolid.zero _)
    · exact IsSolid.zero _
  · exact IsSolid.zero _

lemma isSolid_decimalLength {s : List Char} {n : Nat} (h : decimalLength s = some n) :
    IsSolid n s ∧ 0 < n := by
  have hwhole := isSolid_digitRun (fun c => isSeparator_isDigit) s
  unfold decimalLength at h
  dsimp only at h
  split at h
  · rename_i tail hrest
    split at h
    · cases h
    · cases h
      have hfraction := isSolid_digitRun (fun c => isSeparator_isDigit) tail
      have hbehind := (hfraction.add (isSolid_exponentLength _)).cons (c := '.') rfl
      rw [← hrest] at hbehind
      have hall := hwhole.add hbehind
      refine ⟨?_, by omega⟩
      rwa [Nat.add_comm _ 1, ← Nat.add_assoc, ← Nat.add_assoc] at hall
  · rename_i tail hrest
    split at h
    · cases h
    · cases h
      have hbehind := (IsSolid.zero tail).cons (c := 'n') rfl
      rw [← hrest] at hbehind
      exact ⟨hwhole.add hbehind, by omega⟩
  · split at h
    · cases h
    · rename_i hne
      cases h
      have hpos : digitRun Char.isDigit s ≠ 0 := by simpa using hne
      exact ⟨hwhole.add (isSolid_exponentLength _), by omega⟩

lemma isSolid_numberLength {s : List Char} {n : Nat} (h : numberLength s = some n) :
    IsSolid n s ∧ 0 < n := by
  unfold numberLength at h
  simp only [Option.or_eq_some_iff] at h
  rcases h with h | ⟨-, h | ⟨-, h | ⟨-, h⟩⟩⟩
  · exact isSolid_radixLength (fun c => isSeparator_isHexDigit) (by decide) h
  · refine isSolid_radixLength (fun c hc => ?_) (by decide) h
    rcases (Bool.or_eq_true _ _).mp hc with hc | hc
    · rw [beq_iff_eq.mp hc]; rfl
    · rw [beq_iff_eq.mp hc]; rfl
  · refine isSolid_radixLength (fun c hc => ?_) (by decide) h
    simp only [Bool.and_eq_true, decide_eq_true_eq, Char.le_def, UInt32.le_iff_toNat_le] at hc
    change 48 ≤ c.toNat ∧ c.toNat ≤ 55 at hc
    exact isSeparator_of_ascii (by omega) (by omega)
  · exact isSolid_decimalLength h

/-! ## Other tokens -/

lemma isSolid_operatorAt {s : List Char} {o : String} (h : operatorAt s = some o) :
    IsSolid o.length s ∧ 0 < o.length := by
  have hmarks : ∀ o ∈ operators, 0 < o.length ∧ o.toList.all (!isSeparator ·) = true := by
    decide
  unfold operatorAt at h
  split at h
  · rename_i c _
    split at h
    · cases h
      exact ⟨(IsSolid.zero _).cons rfl, by decide⟩
    · cases h
      exact ⟨((IsSolid.zero _).cons rfl).cons rfl, by decide⟩
  · obtain ⟨hpos, hsolid⟩ := hmarks o (List.mem_of_find?_eq_some h)
    have hprefix : o.toList.isPrefixOf s = true := by simpa using List.find?_some h
    obtain ⟨rest, rfl⟩ := List.isPrefixOf_iff_prefix.mp hprefix
    refine ⟨⟨?_, ?_⟩, hpos⟩
    · rw [List.length_append, String.length_toList]
      omega
    · rw [← String.length_toList, List.take_left]
      simpa using hsolid

/-- A quoted text ends in its quote. -/
lemma endsSolid_quotedLength {quote : Char} (hquote : isSeparator quote = false) {s : List Char}
    {n : Nat} (h : quotedLength quote s = some n) : EndsSolid n s := by
  fun_induction quotedLength quote s generalizing n with
  | case1 => cases h
  | case2 => cases h
  | case3 c rest ih =>
    obtain ⟨m, hm, rfl⟩ := Option.map_eq_some_iff.mp h
    exact ((ih hm).cons c).cons '\\'
  | case4 c rest _ _ hc =>
    cases h
    rw [beq_iff_eq.mp hc]
    exact ((IsSolid.zero rest).cons hquote).endsSolid Nat.one_pos
  | case5 c rest _ _ hc ih =>
    obtain ⟨m, hm, rfl⟩ := Option.map_eq_some_iff.mp h
    exact (ih hm).cons c

/-- **No token ends in a separator.** -/
theorem endsSolid_anyToken {c : Char} (hc : isSeparator c = false) (rest : List Char) :
    EndsSolid (anyToken (c :: rest)).2 (c :: rest) := by
  have hsingle : EndsSolid 1 (c :: rest) := ((IsSolid.zero rest).cons hc).endsSolid Nat.one_pos
  unfold anyToken
  dsimp only
  split
  · rename_i n hword
    exact (isSolid_wordLength hword).1.endsSolid (isSolid_wordLength hword).2
  · split
    · rename_i n hnumber
      exact (isSolid_numberLength hnumber).1.endsSolid (isSolid_numberLength hnumber).2
    · split
      · split
        · rename_i n hquoted
          exact (endsSolid_quotedLength hc hquoted).cons c
        · exact hsingle
      · split
        · rename_i o hoperator
          exact (isSolid_operatorAt hoperator).1.endsSolid (isSolid_operatorAt hoperator).2
        · exact hsingle

/-! ## What comes before a token -/

/-- The blanks before a token are separators. -/
lemma isSeparator_of_mem_gap {fuel : Nat} {s : List Char} {c : Char}
    (h : c ∈ (commentsUpTo fuel s).2.1) : isSeparator c = true := by
  induction fuel generalizing s with
  | zero =>
    rw [commentsUpTo] at h
    exact List.mem_takeWhile_imp h
  | succ fuel ih =>
    unfold commentsUpTo at h
    dsimp only at h
    split at h
    · exact List.mem_takeWhile_imp h
    · exact ih h

/-- A token does not begin with a separator. -/
lemma isSeparator_of_rest {fuel : Nat} {s rest : List Char} {c : Char}
    (h : (commentsUpTo fuel s).2.2 = c :: rest) : isSeparator c = false := by
  have hblanks : ∀ s : List Char, (blanks s).2 = c :: rest → isSeparator c = false := by
    intro s hs
    have hhead := List.head?_dropWhile_not isSeparator s
    have hhead' : (s.dropWhile isSeparator).head? = some c := by
      change s.dropWhile isSeparator = c :: rest at hs
      rw [hs]
      rfl
    rw [hhead'] at hhead
    simpa using hhead
  induction fuel generalizing s with
  | zero => exact hblanks s h
  | succ fuel ih =>
    unfold commentsUpTo at h
    dsimp only at h
    split at h
    · exact hblanks s h
    · exact ih h

/-! ## Errors -/

/-- Tokens outside of any order hold the characters they are made from, but for separators at the
end. -/
lemma charsAll_tokenLeaves (fuel : Nat) (s : List Char) :
    ∃ tail, charsAll (tokenLeaves fuel s) ++ tail = s ∧
      (s.length < fuel → ∀ c ∈ tail, isSeparator c = true) := by
  induction fuel generalizing s with
  | zero => exact ⟨s, by simp [tokenLeaves], fun h => by omega⟩
  | succ fuel ih =>
    have hsplit := commentsUpTo_append s.length s
    have hgap : ∀ c ∈ (commentsUpTo s.length s).2.1, isSeparator c = true :=
      fun c => isSeparator_of_mem_gap
    have hrest : ∀ c rest, (commentsUpTo s.length s).2.2 = c :: rest → isSeparator c = false :=
      fun c rest => isSeparator_of_rest
    unfold tokenLeaves comments
    generalize commentsUpTo s.length s = r at hsplit hgap hrest
    obtain ⟨extras, gap, rest⟩ := r
    dsimp only at hsplit hgap hrest
    cases rest with
    | nil => exact ⟨gap, by simpa using hsplit, fun _ => hgap⟩
    | cons c rest =>
      obtain ⟨hpos, -⟩ := endsSolid_anyToken (hrest c rest rfl) rest
      obtain ⟨tail, htail, hblank⟩ := ih ((c :: rest).drop (anyToken (c :: rest)).2)
      refine ⟨tail, ?_, fun hfuel => hblank ?_⟩
      · simp only [charsAll_append, charsAll_cons, chars, List.append_assoc, htail,
          List.take_append_drop]
        exact hsplit
      · have hlength := congrArg List.length hsplit
        simp only [List.length_append, List.length_cons, List.length_drop] at hlength ⊢
        omega

/-- An error holds characters that its text begins with. -/
lemma chars_errorNode_prefix (s : List Char) : (errorNode s).chars <+: s := by
  obtain ⟨tail, htail, -⟩ := charsAll_tokenLeaves (s.length + 1) s
  unfold errorNode
  rw [chars]
  exact ⟨tail, htail⟩

/-- **An error** holds the characters it is made from, where the last of them is not a
separator. -/
lemma chars_errorNode {n : Nat} {s : List Char} (h : EndsSolid n s) :
    (errorNode (s.take n)).chars = s.take n := by
  obtain ⟨tail, htail, hblank⟩ := charsAll_tokenLeaves ((s.take n).length + 1) (s.take n)
  have hblank := hblank (Nat.lt_succ_self _)
  unfold errorNode
  rw [chars]
  obtain ⟨-, c, hc, -, hsolid⟩ := h
  -- separators at the end would have the last character among them
  obtain rfl : tail = [] := by
    by_contra hne
    have hlast : (s.take n).getLast? = some (tail.getLast hne) := by
      rw [← htail, List.getLast?_append, List.getLast?_eq_some_getLast hne]
      rfl
    rw [Option.mem_def, hlast, Option.some.injEq] at hc
    rw [← hc, hblank _ (List.getLast_mem hne)] at hsolid
    cases hsolid
  rwa [List.append_nil] at htail

/-- Where a token ends, there is a character before that is no separator. -/
lemma endsSolid_of_mem_tokenEnds {fuel passed e : Nat} {s : List Char}
    (h : e ∈ tokenEnds fuel passed s) : passed < e ∧ EndsSolid (e - passed) s := by
  induction fuel generalizing passed s with
  | zero => cases h
  | succ fuel ih =>
    have hsplit := commentsUpTo_append s.length s
    have hrest : ∀ c rest, (commentsUpTo s.length s).2.2 = c :: rest → isSeparator c = false :=
      fun c rest => isSeparator_of_rest
    unfold tokenEnds comments at h
    generalize commentsUpTo s.length s = r at h hsplit hrest
    obtain ⟨extras, gap, rest⟩ := r
    dsimp only at h hsplit hrest
    cases rest with
    | nil => cases h
    | cons c rest =>
      have hsolid := endsSolid_anyToken (hrest c rest rfl) rest
      dsimp only at h
      split at h
      · cases h
      · rw [← List.append_assoc] at hsplit
        have hlength : (charsAll extras ++ gap).length = (charsAll extras).length + gap.length :=
          List.length_append
        rcases List.mem_cons.mp h with rfl | h
        · have hends := hsolid.append (charsAll extras ++ gap)
          rw [hsplit] at hends
          refine ⟨by have := hsolid.1; omega, ?_⟩
          convert hends using 1
          omega
        · obtain ⟨hlt, hends⟩ := ih h
          have hends' := (hends.append ((c :: rest).take (anyToken (c :: rest)).2)).append
            (charsAll extras ++ gap)
          rw [List.take_append_drop, hsplit] at hends'
          refine ⟨by omega, ?_⟩
          convert hends' using 1
          obtain ⟨-, -, -, hle, -⟩ := hsolid
          rw [List.length_take, Nat.min_eq_left hle]
          omega

/-! ## Trees put among others -/

/-- A tree put into another stands at its place. -/
lemma chars_insertInside? {new t t' : Tree} {place : Nat}
    (h : insertInside? new place t = some t') :
    ∃ a b, t.chars = a ++ b ∧ a.length = place ∧ t'.chars = a ++ (new.chars ++ b) := by
  induction t using Tree.induction_parts generalizing t' place with
  | leaf => cases h
  | node f k cs ih =>
    rw [insertInside?] at h
    obtain ⟨cs', hcs', rfl⟩ := Option.map_eq_some_iff.mp h
    rw [chars, chars]
    rcases insertAt?_cases hcs' with ⟨before, after, rfl, rfl, hplace⟩ |
      ⟨before, u, u', after, rfl, rfl, hplace, hinside⟩
    · exact ⟨charsAll before, charsAll after, by simp, hplace, by simp⟩
    · obtain ⟨a, b, hu, ha, hu'⟩ := ih u (by simp) hinside
      refine ⟨charsAll before ++ a, b ++ charsAll after, by simp [hu], ?_, by simp [hu']⟩
      rw [List.length_append]
      omega

/-- A tree put among others stands at its place. -/
lemma charsAll_insertAt? {new : Tree} {place : Nat} {ts ts' : List Tree}
    (h : insertAt? new place ts = some ts') :
    ∃ a b, charsAll ts = a ++ b ∧ a.length = place ∧ charsAll ts' = a ++ (new.chars ++ b) := by
  have hnode : insertInside? new place (.node none .error ts) = some (.node none .error ts') := by
    rw [insertInside?, h]
    rfl
  obtain ⟨a, b, hts, ha, hts'⟩ := chars_insertInside? hnode
  rw [chars] at hts hts'
  exact ⟨a, b, hts, ha, hts'⟩

/-! ## Statements -/

variable {dialect : Dialect}

/-- Tokens that are left out of a statement come back at their place. -/
lemma charsAll_statementWithout? {s rest : List Char} {start stop : Nat} {trees : List Tree}
    (hlt : start < stop) (hends : EndsSolid stop s)
    (h : statementWithout? dialect s start stop = some (trees, rest)) :
    charsAll trees ++ rest = s := by
  unfold statementWithout? at h
  split at h
  · cases h
  · rename_i read rest' hread
    split at h
    · cases h
    · rename_i hrest
      obtain ⟨trees', hinsert, heq⟩ := Option.map_eq_some_iff.mp h
      obtain ⟨rfl, rfl⟩ := Prod.mk.inj heq
      obtain ⟨a, b, hread', ha, hinserted⟩ := charsAll_insertAt? hinsert
      have hchars := charsAll_readForm hread
      rw [hread', List.append_assoc] at hchars
      have hle : stop ≤ s.length := by
        obtain ⟨-, -, -, hle, -⟩ := hends
        exact hle
      -- the statement covers all before the tokens left out
      have hsplit := List.append_inj hchars (by rw [ha, List.length_take]; omega)
      have herror := chars_errorNode (hends.drop hlt)
      rw [← List.drop_take] at herror
      have hwhole : s.take start ++ ((s.take stop).drop start ++ s.drop stop) = s := by
        rw [← List.append_assoc, List.drop_take, ← List.take_add, Nat.add_sub_cancel' hlt.le,
          List.take_append_drop]
      rw [hinserted, herror, hsplit.1, List.append_assoc, List.append_assoc, hsplit.2, hwhole]

/-- The places where tokens end are in the order of the text. -/
lemma pairwise_tokenEnds (fuel passed : Nat) (s : List Char) :
    (passed :: tokenEnds fuel passed s).Pairwise (· ≤ ·) := by
  induction fuel generalizing passed s with
  | zero => simp [tokenEnds]
  | succ fuel ih =>
    unfold tokenEnds
    generalize comments s = r
    obtain ⟨extras, gap, rest⟩ := r
    cases rest with
    | nil => simp
    | cons c rest =>
      dsimp only
      split
      · simp
      · have hrest := ih (passed + (charsAll extras).length + gap.length +
          (anyToken (c :: rest)).2) ((c :: rest).drop (anyToken (c :: rest)).2)
        refine List.pairwise_cons.mpr ⟨fun e he => ?_, hrest⟩
        rcases List.mem_cons.mp he with rfl | he
        · omega
        · have hle := (List.pairwise_cons.mp hrest).1 e he
          omega

lemma stretches_le {ends : List Nat} {count start stop : Nat}
    (h : (0 :: ends).Pairwise (· ≤ ·)) (hmem : (start, stop) ∈ stretches ends count) :
    start ≤ stop := by
  unfold stretches at hmem
  rw [List.mem_reverse] at hmem
  obtain ⟨i, hi, heq⟩ := List.mem_iff_getElem.mp hmem
  rw [List.getElem_zip] at heq
  obtain ⟨rfl, rfl⟩ := Prod.mk.inj heq
  rw [List.length_zip, List.length_drop] at hi
  rw [List.getElem_drop]
  exact List.pairwise_iff_getElem.mp h i (count - 1 + i + 1) (by simp; omega) (by simp; omega)
    (by omega)

/-- Tokens that are tried to be left out end where a token ends. -/
lemma endsSolid_of_mem_stretches {fuel count start stop : Nat} {s : List Char}
    (h : (start, stop) ∈ stretches (tokenEnds fuel 0 s) count) : EndsSolid stop s := by
  unfold stretches at h
  rw [List.mem_reverse] at h
  exact (endsSolid_of_mem_tokenEnds (List.mem_of_mem_drop (List.of_mem_zip h).2)).2

lemma charsAll_repairStatement? {s rest : List Char} {trees : List Tree}
    (h : repairStatement? dialect s = some (trees, rest)) : charsAll trees ++ rest = s := by
  unfold repairStatement? at h
  obtain ⟨n, -, hn⟩ := List.exists_of_findSome?_eq_some h
  obtain ⟨⟨start, stop⟩, hmem, hstretch⟩ := List.exists_of_findSome?_eq_some hn
  dsimp only at hstretch
  split at hstretch
  · cases hstretch
  · rename_i hne
    have hle := stretches_le (pairwise_tokenEnds _ 0 s) hmem
    have hlt : start < stop := Nat.lt_of_le_of_ne hle (by simpa using hne)
    exact charsAll_statementWithout? hlt (endsSolid_of_mem_stretches hmem) hstretch

/-- A section that is skipped ends where a token ends. -/
lemma charsAll_skipSection {s : List Char} (h : (comments s).2.2 ≠ []) :
    charsAll (skipSection s).1 ++ (skipSection s).2 = s := by
  -- the first token is never the start of another section
  have hne : tokenEnds s.length 0 s ≠ [] := by
    cases hlength : s.length with
    | zero =>
      rw [List.length_eq_zero_iff.mp hlength] at h
      exact absurd rfl h
    | succ n =>
      unfold tokenEnds
      generalize comments s = r at h
      obtain ⟨extras, gap, rest⟩ := r
      cases rest with
      | nil => exact absurd rfl h
      | cons c rest => exact List.cons_ne_nil _ _
  have hends : EndsSolid ((tokenEnds s.length 0 s).getLast?.getD s.length) s := by
    rw [List.getLast?_eq_some_getLast hne]
    exact (endsSolid_of_mem_tokenEnds (List.getLast_mem hne)).2
  unfold skipSection
  rw [charsAll_cons, charsAll_nil, List.append_nil, chars_errorNode hends, List.take_append_drop]

/-- The first statement of a text and the rest make up the text. -/
lemma charsAll_firstStatement {s rest : List Char} {trees : List Tree}
    (hsome : (comments s).2.2 ≠ [])
    (h : ((readForm dialect Form.statement s).or (repairStatement? dialect s)).getD
      (skipSection s) = (trees, rest)) : charsAll trees ++ rest = s := by
  cases hread : readForm dialect Form.statement s with
  | some r =>
    rw [hread, Option.some_or, Option.getD_some] at h
    exact charsAll_readForm (h ▸ hread)
  | none =>
    rw [hread, Option.none_or] at h
    cases hrepair : repairStatement? dialect s with
    | some r =>
      rw [hrepair, Option.getD_some] at h
      exact charsAll_repairStatement? (h ▸ hrepair)
    | none =>
      rw [hrepair, Option.getD_none] at h
      have hskip := charsAll_skipSection hsome
      rwa [h] at hskip

/-- Statements in a row hold the characters that the text begins with. -/
lemma charsAll_readStatements_prefix (fuel : Nat) (s : List Char) :
    charsAll (readStatements dialect fuel s) <+: s := by
  induction fuel generalizing s with
  | zero => simpa [readStatements] using chars_errorNode_prefix s
  | succ fuel ih =>
    unfold readStatements
    split
    · rename_i hend
      have hsplit := commentsUpTo_append s.length s
      have hnil : (commentsUpTo s.length s).2.2 = [] := List.isEmpty_iff.mp hend
      rw [hnil, List.append_nil] at hsplit
      unfold comments
      refine ⟨[], ?_⟩
      rw [charsAll_append, charsAll_cons, charsAll_nil, chars, List.append_nil, List.append_nil,
        List.append_nil, hsplit]
    · rename_i hsome
      cases hfirst : ((readForm dialect Form.statement s).or (repairStatement? dialect s)).getD
          (skipSection s) with
      | mk trees rest =>
        have hchars := charsAll_firstStatement (by simpa using hsome) hfirst
        dsimp only
        rw [charsAll_append, ← hchars]
        exact (List.prefix_append_right_inj _).mpr (ih rest)

/-- **Trees hold the text.** The tree of a text holds the characters that the text begins with,
whether or not the grammar can read the text. -/
theorem chars_parse_prefix (dialect : Dialect) (s : List Char) : (parse dialect s).chars <+: s := by
  unfold parse
  cases hprogram : readProgram? dialect s with
  | none =>
    rw [Option.getD_none, chars]
    exact charsAll_readStatements_prefix _ s
  | some root =>
    refine ⟨[], ?_⟩
    rw [List.append_nil, Option.getD_some]
    exact chars_readProgram? hprogram

/-- The tree of a text holds no more characters than the text. -/
lemma length_chars_parse_le (dialect : Dialect) (s : List Char) :
    (parse dialect s).chars.length ≤ s.length := by
  obtain ⟨rest, hrest⟩ := chars_parse_prefix dialect s
  have hlength := congrArg List.length hrest
  rw [List.length_append] at hlength
  omega

end ThemeOverride.Script
