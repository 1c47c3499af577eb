import Mathlib.Data.List.Sort
import Mathlib.Data.Nat.Digits.Defs
import ThemeOverride.Console.Selection

/-!
# What a typed selection means

A typed answer is read as numbers with gaps between them. This module says what a text spells,
whichever way the gaps are typed, and which positions the numbers stand for. Two answers with the
same numbers select the same, in whichever order and how often these are typed.

## Main definitions

* `ThemeOverride.Console.Spells` — a text spells tokens, with gaps around and between them.
* `ThemeOverride.Console.tokenNumber?` — the number that a token stands for.
* `ThemeOverride.Console.Selects` — what tokens select among a number of options.
* `ThemeOverride.Console.IsUnreadable` — tokens hold a number that cannot be read.
* `ThemeOverride.Console.Retyped` — tokens typed in another way.

## Main results

* `ThemeOverride.Console.spells_iff` — a text spells the tokens that are read from it alone.
* `ThemeOverride.Console.selects_selectTokens` — tokens select what they should.
* `ThemeOverride.Console.selectTokens_eq_error_iff` — which tokens cannot be read.
* `ThemeOverride.Console.parseSelection_means` — what a typed answer selects.
-/

namespace ThemeOverride.Console

/-! ## Tokens -/

/-- A token: characters of which none stands between numbers. -/
def IsToken (s : List Char) : Prop := s ≠ [] ∧ ∀ c ∈ s, isBetween c = false

/-- **A text spells tokens**: they stand in it one after the other, with a gap behind each up to the
next, and there may be gaps at both ends. A gap is made of characters that stand between numbers. -/
inductive Spells : List Char → List (List Char) → Prop
  | nothing : Spells [] []
  | gap {c : Char} {s : List Char} {tokens : List (List Char)} (hc : isBetween c = true)
      (h : Spells s tokens) : Spells (c :: s) tokens
  | token {token rest : List Char} {tokens : List (List Char)} (htoken : IsToken token)
      (hend : ∀ c ∈ rest.head?, isBetween c = true) (h : Spells rest tokens) :
      Spells (token ++ rest) (token :: tokens)

section

variable {c d : Char} {s token rest : List Char} {tokens : List (List Char)}

lemma selectionTokens_of_between (hc : isBetween c = true) (s : List Char) :
    selectionTokens (c :: s) = selectionTokens s := by
  rw [selectionTokens.eq_def]
  simp only [hc, if_true]

/-- A character that ends a token. -/
lemma selectionTokens_last (hc : isBetween c = false)
    (hend : ∀ d ∈ rest.head?, isBetween d = true) :
    selectionTokens (c :: rest) = [c] :: selectionTokens rest := by
  rw [selectionTokens.eq_def]
  cases rest with
  | nil => simp [hc, selectionTokens]
  | cons d rest => simp [hc, hend d rfl]

/-- A character that a token goes on behind. -/
lemma selectionTokens_more (hc : isBetween c = false) (hd : isBetween d = false)
    (h : selectionTokens (d :: rest) = token :: tokens) :
    selectionTokens (c :: d :: rest) = (c :: token) :: tokens := by
  rw [selectionTokens.eq_def]
  simp only [hc, hd, h, Bool.false_eq_true, if_false]

lemma selectionTokens_token (htoken : IsToken token)
    (hend : ∀ c ∈ rest.head?, isBetween c = true) :
    selectionTokens (token ++ rest) = token :: selectionTokens rest := by
  obtain ⟨hne, hall⟩ := htoken
  induction token with
  | nil => exact absurd rfl hne
  | cons c token ih =>
    have hc : isBetween c = false := hall c List.mem_cons_self
    cases token with
    | nil => exact selectionTokens_last hc hend
    | cons d token =>
      have hd : isBetween d = false := hall d (by simp)
      exact selectionTokens_more hc hd (ih (by simp) fun e he => hall e (List.mem_cons_of_mem _ he))

lemma Spells.tokens_eq (h : Spells s tokens) : tokens = selectionTokens s := by
  induction h with
  | nothing => rfl
  | gap hc _ ih => rw [selectionTokens_of_between hc, ih]
  | token htoken hend _ ih => rw [selectionTokens_token htoken hend, ih]

lemma Spells.isToken (h : Spells s tokens) : ∀ token ∈ tokens, IsToken token := by
  induction h with
  | nothing => simp
  | gap _ _ ih => exact ih
  | token htoken _ _ ih => exact List.forall_mem_cons.mpr ⟨htoken, ih⟩

/-- A character makes the first token longer, if the text begins with one. -/
lemma Spells.cons_token (h : Spells (d :: s) tokens) (hc : isBetween c = false)
    (hd : isBetween d = false) :
    ∃ token rest, tokens = token :: rest ∧ Spells (c :: d :: s) ((c :: token) :: rest) := by
  generalize htext : d :: s = text at h
  cases h with
  | nothing => cases htext
  | gap hother =>
    cases htext
    rw [hd] at hother
    cases hother
  | @token token _ rest htoken hend h =>
    refine ⟨token, rest, rfl, .token ⟨List.cons_ne_nil _ _, fun e he => ?_⟩ hend h⟩
    rcases List.mem_cons.mp he with rfl | he
    · exact hc
    · exact htoken.2 e he

/-- A text spells the tokens that are read from it. -/
lemma spells_selectionTokens (s : List Char) : Spells s (selectionTokens s) := by
  induction s with
  | nil => exact .nothing
  | cons c rest ih =>
    by_cases hc : isBetween c = true
    · rw [selectionTokens_of_between hc]
      exact ih.gap hc
    · rw [Bool.not_eq_true] at hc
      by_cases hend : ∀ d ∈ rest.head?, isBetween d = true
      · rw [selectionTokens_last hc hend]
        have hsingle : IsToken [c] := ⟨List.cons_ne_nil _ _, by simpa using hc⟩
        exact ih.token hsingle hend
      · -- the text behind begins with a token, which the character makes longer
        push Not at hend
        obtain ⟨d, hhead, hd⟩ := hend
        obtain ⟨rest, rfl⟩ : ∃ behind, rest = d :: behind := by
          cases rest with
          | nil => cases hhead
          | cons e behind => exact ⟨behind, by simpa using hhead⟩
        rw [ne_eq, Bool.not_eq_true] at hd
        obtain ⟨token, tokens, htokens, hspells⟩ := ih.cons_token hc hd
        rw [selectionTokens_more hc hd htokens]
        exact hspells

lemma selectionTokens_ne_nil (s : List Char) : ∀ token ∈ selectionTokens s, token ≠ [] :=
  fun token h => ((spells_selectionTokens s).isToken token h).1

/-- **A text spells the tokens that are read from it**, and no others. -/
theorem spells_iff : Spells s tokens ↔ tokens = selectionTokens s := by
  constructor
  · exact Spells.tokens_eq
  · rintro rfl
    exact spells_selectionTokens s

end

/-! ## Numbers -/

/-- **The number that a token stands for**: the value of its decimal digits, of whatever script. -/
def tokenNumber? (token : List Char) : Option Nat :=
  (token.mapM Text.decimalValue?).map fun digits => Nat.ofDigits 10 digits.reverse

/-- A token that can be read, as a number or as none: its digits are decimal, and a number may have
as many of them. -/
structure IsReadable (token : List Char) : Prop where
  decimal : ∀ c ∈ token, Text.isDigit c = true → (Text.decimalValue? c).isSome = true
  length_le : token.length ≤ mostDigits

lemma isReadable_iff (token : List Char) : IsReadable token ↔
    (token.all fun c => !Text.isDigit c || (Text.decimalValue? c).isSome) = true ∧
      token.length ≤ mostDigits := by
  have hall : (token.all fun c => !Text.isDigit c || (Text.decimalValue? c).isSome) = true ↔
      ∀ c ∈ token, Text.isDigit c = true → (Text.decimalValue? c).isSome = true := by
    simp only [List.all_eq_true, Bool.or_eq_true, Bool.not_eq_true', ← Bool.not_eq_true,
      imp_iff_not_or]
  rw [hall]
  exact ⟨fun h => ⟨h.decimal, h.length_le⟩, fun h => ⟨h.1, h.2⟩⟩

instance (token : List Char) : Decidable (IsReadable token) :=
  decidable_of_iff' _ (isReadable_iff token)

/-- **A token is the number of an option**, of which there are `count`. -/
def IsOption (count : Int) (token : List Char) : Prop :=
  ∃ n : Nat, tokenNumber? token = some (n + 1) ∧ (n : Int) < count

section

variable {token : List Char}

lemma length_decimals {digits : List Nat} (h : token.mapM Text.decimalValue? = some digits) :
    digits.length = token.length := by
  induction token generalizing digits with
  | nil =>
    cases h
    rfl
  | cons c token ih =>
    rw [List.mapM_cons] at h
    obtain ⟨d, -, h⟩ := Option.bind_eq_some_iff.mp h
    obtain ⟨rest, hrest, h⟩ := Option.bind_eq_some_iff.mp h
    cases h
    simp [ih hrest]

/-- A further digit goes before the value of those behind it. -/
lemma tokenNumber?_cons (c : Char) (token : List Char) : tokenNumber? (c :: token) =
    (Text.decimalValue? c).bind fun d =>
      (tokenNumber? token).map fun n => d * 10 ^ token.length + n := by
  unfold tokenNumber?
  rw [List.mapM_cons]
  cases Text.decimalValue? c with
  | none => rfl
  | some d =>
    cases hdigits : token.mapM Text.decimalValue? with
    | none => rfl
    | some digits =>
      have hlength := length_decimals hdigits
      have hvalue : Nat.ofDigits 10 (d :: digits).reverse =
          d * 10 ^ token.length + Nat.ofDigits 10 digits.reverse := by
        rw [Nat.ofDigits_reverse_cons, hlength]
        ring
      exact congrArg some hvalue

lemma digitsValue_eq (value : Nat) (token : List Char) : digitsValue value token =
    (tokenNumber? token).map fun n => value * 10 ^ token.length + n := by
  induction token generalizing value with
  | nil => simp [digitsValue, tokenNumber?]
  | cons c token ih =>
    rw [digitsValue, tokenNumber?_cons]
    cases Text.decimalValue? c with
    | none => rfl
    | some d =>
      simp only [Option.bind_some, ih, Option.map_map]
      congr 1
      funext n
      simp only [Function.comp_apply, List.length_cons]
      ring

lemma numberOf?_eq (hne : token ≠ []) (hlength : token.length ≤ mostDigits) :
    numberOf? token = tokenNumber? token := by
  unfold numberOf?
  rw [if_neg (by simp [hne, hlength]), digitsValue_eq]
  simp

lemma isSome_tokenNumber? (token : List Char) : (tokenNumber? token).isSome = true ↔
    ∀ c ∈ token, (Text.decimalValue? c).isSome = true := by
  induction token with
  | nil => simp [tokenNumber?]
  | cons c token ih =>
    rw [tokenNumber?_cons]
    cases hc : Text.decimalValue? c with
    | none => simp [hc]
    | some d => simpa [hc] using ih

/-- What can be read has digits alone exactly if it stands for a number. -/
lemma IsReadable.all_isDigit_iff (h : IsReadable token) :
    token.all Text.isDigit = true ↔ (tokenNumber? token).isSome = true := by
  rw [isSome_tokenNumber?, List.all_eq_true]
  constructor
  · intro hdigits c hc
    exact h.decimal c hc (hdigits c hc)
  · intro hdecimal c hc
    simp [Text.isDigit, hdecimal c hc]

end

/-! ## Positions -/

lemma mem_insertPosition {m n : Nat} {positions : List Nat} :
    m ∈ insertPosition n positions ↔ m = n ∨ m ∈ positions := by
  induction positions with
  | nil => simp [insertPosition]
  | cons p rest ih =>
    rw [insertPosition]
    split
    · exact List.mem_cons
    · split
      · rename_i heq
        obtain rfl := beq_iff_eq.mp heq
        simp
      · rw [List.mem_cons, ih, List.mem_cons]
        tauto

/-- An increasing list stays increasing. -/
lemma pairwise_insertPosition {positions : List Nat} (h : positions.Pairwise (· < ·)) (n : Nat) :
    (insertPosition n positions).Pairwise (· < ·) := by
  induction positions with
  | nil => simp [insertPosition]
  | cons p rest ih =>
    obtain ⟨hp, hrest⟩ := List.pairwise_cons.mp h
    rw [insertPosition]
    split
    · rename_i hlt
      refine List.pairwise_cons.mpr ⟨fun m hm => ?_, h⟩
      rcases List.mem_cons.mp hm with rfl | hm
      · exact hlt
      · exact hlt.trans (hp m hm)
    · split
      · exact h
      · rename_i hle hne
        have hlt : p < n := by
          rw [beq_iff_eq] at hne
          omega
        refine List.pairwise_cons.mpr ⟨fun m hm => ?_, ih hrest⟩
        rcases mem_insertPosition.mp hm with rfl | hm
        · exact hlt
        · exact hp m hm

/-- **What tokens select** among `count` options: nothing if one of them is not the number of an
option, and otherwise the positions of all that they number, each once and in order. -/
def Selects (count : Int) (tokens : List (List Char)) : Option (List Nat) → Prop
  | none => ∃ token ∈ tokens, ¬ IsOption count token
  | some positions => (∀ token ∈ tokens, IsOption count token) ∧ positions.Pairwise (· < ·) ∧
      ∀ n, n ∈ positions ↔ ∃ token ∈ tokens, tokenNumber? token = some (n + 1)

section

variable {count : Int} {token : List Char} {tokens : List (List Char)}

/-- Tokens select one thing. -/
lemma Selects.unique {r r' : Option (List Nat)} (h : Selects count tokens r)
    (h' : Selects count tokens r') : r = r' := by
  cases r with
  | none =>
    obtain ⟨token, htoken, hnot⟩ := h
    cases r' with
    | none => rfl
    | some positions => exact absurd (h'.1 token htoken) hnot
  | some positions =>
    cases r' with
    | none =>
      obtain ⟨token, htoken, hnot⟩ := h'
      exact absurd (h.1 token htoken) hnot
    | some positions' =>
      refine congrArg some (h.2.1.eq_of_mem_iff h'.2.1 fun n => ?_)
      rw [h.2.2, h'.2.2]

/-- The positions that tokens select are those of options. -/
lemma Selects.lt {positions : List Nat} (h : Selects count tokens (some positions)) {n : Nat}
    (hn : n ∈ positions) : (n : Int) < count := by
  obtain ⟨token, htoken, hnumber⟩ := (h.2.2 n).mp hn
  obtain ⟨m, hm, hlt⟩ := h.1 token htoken
  rw [hnumber, Option.some.injEq, Nat.add_right_cancel_iff] at hm
  exact hm ▸ hlt

/-- What a token that is the number of an option adds to what those behind it select. -/
lemma selectTokens_option {n : Nat} (hne : token ≠ []) (hreadable : IsReadable token)
    (hnumber : tokenNumber? token = some (n + 1)) (hlt : (n : Int) < count)
    (tokens : List (List Char)) : selectTokens count (token :: tokens) =
      (selectTokens count tokens).map fun r => r.map (insertPosition n) := by
  have hdigits : token.all Text.isDigit = true := by
    rw [hreadable.all_isDigit_iff, hnumber]
    rfl
  have hcount : decide (count < ((n + 1 : Nat) : Int)) = false := by
    rw [decide_eq_false_iff_not]
    omega
  rw [selectTokens, hdigits, numberOf?_eq hne hreadable.length_le, hnumber]
  simp only [hcount]
  rfl

/-- A token that is the number of no option ends the selection. -/
lemma selectTokens_not_option (hne : token ≠ []) (hreadable : IsReadable token)
    (hnot : ¬ IsOption count token) (tokens : List (List Char)) :
    selectTokens count (token :: tokens) = .ok none := by
  rw [selectTokens]
  by_cases hdigits : token.all Text.isDigit = true
  · obtain ⟨v, hv⟩ := Option.isSome_iff_exists.mp (hreadable.all_isDigit_iff.mp hdigits)
    rw [hdigits, numberOf?_eq hne hreadable.length_le, hv]
    have hrange : (v == 0 || decide (count < (v : Int))) = true := by
      by_contra hin
      simp only [Bool.or_eq_true, beq_iff_eq, decide_eq_true_eq, not_or, not_lt] at hin
      refine hnot ⟨v - 1, ?_, by omega⟩
      rw [hv]
      congr 1
      omega
    simp [hrange]
  · simp [hdigits]

/-- **Tokens select what they should** if all of them can be read. -/
theorem selects_selectTokens (hne : ∀ token ∈ tokens, token ≠ [])
    (hreadable : ∀ token ∈ tokens, IsReadable token) :
    ∃ r, selectTokens count tokens = .ok r ∧ Selects count tokens r := by
  induction tokens with
  | nil => exact ⟨some [], rfl, by simp [Selects]⟩
  | cons token rest ih =>
    rw [List.forall_mem_cons] at hne hreadable
    by_cases hoption : IsOption count token
    · -- the token adds its position to what those behind it select
      obtain ⟨n, hnumber, hlt⟩ := hoption
      obtain ⟨r, hr, hselects⟩ := ih hne.2 hreadable.2
      refine ⟨r.map (insertPosition n), ?_, ?_⟩
      · rw [selectTokens_option hne.1 hreadable.1 hnumber hlt, hr]
        rfl
      · cases r with
        | none =>
          obtain ⟨other, hmem, hnot⟩ := hselects
          exact ⟨other, List.mem_cons_of_mem _ hmem, hnot⟩
        | some positions =>
          obtain ⟨hall, hsorted, hmem⟩ := hselects
          refine ⟨List.forall_mem_cons.mpr ⟨⟨n, hnumber, hlt⟩, hall⟩,
            pairwise_insertPosition hsorted n, fun m => ?_⟩
          rw [mem_insertPosition, hmem, List.exists_mem_cons_iff, hnumber]
          simp [eq_comm]
    · exact ⟨none, selectTokens_not_option hne.1 hreadable.1 hoption rest, token,
        List.mem_cons_self, hoption⟩

end

/-! ## Numbers that cannot be read -/

/-- **Tokens hold a number that cannot be read**, as far as they are looked at: a token of digits
alone is not readable, and those before it are numbers of options. -/
inductive IsUnreadable (count : Int) : List (List Char) → Prop
  | here {token : List Char} {rest : List (List Char)} (hdigits : token.all Text.isDigit = true)
      (h : ¬ IsReadable token) : IsUnreadable count (token :: rest)
  | behind {token : List Char} {rest : List (List Char)} (hreadable : IsReadable token)
      (hoption : IsOption count token) (h : IsUnreadable count rest) :
      IsUnreadable count (token :: rest)

section

variable {count : Int} {token : List Char} {tokens : List (List Char)}

lemma IsUnreadable.exists_mem (h : IsUnreadable count tokens) :
    ∃ token ∈ tokens, token.all Text.isDigit = true ∧ ¬ IsReadable token := by
  induction h with
  | @here token _ hdigits hnot => exact ⟨token, List.mem_cons_self, hdigits, hnot⟩
  | behind _ _ _ ih =>
    obtain ⟨token, hmem, hrest⟩ := ih
    exact ⟨token, List.mem_cons_of_mem _ hmem, hrest⟩

lemma numberOf?_eq_none_iff (hne : token ≠ []) (hdigits : token.all Text.isDigit = true) :
    numberOf? token = none ↔ ¬ IsReadable token := by
  constructor
  · intro hnone hreadable
    rw [numberOf?_eq hne hreadable.length_le] at hnone
    have hsome := hreadable.all_isDigit_iff.mp hdigits
    rw [hnone] at hsome
    cases hsome
  · intro hnot
    by_cases hlength : token.length ≤ mostDigits
    · rw [numberOf?_eq hne hlength, ← Option.not_isSome_iff_eq_none, isSome_tokenNumber?]
      exact fun hdecimal => hnot ⟨fun c hc _ => hdecimal c hc, hlength⟩
    · unfold numberOf?
      rw [if_pos (by simp; omega)]

/-- **Tokens cannot be read exactly if they hold such a number.** -/
theorem selectTokens_eq_error_iff (hne : ∀ token ∈ tokens, token ≠ []) {fault : NumberFault} :
    selectTokens count tokens = .error fault ↔ IsUnreadable count tokens := by
  induction tokens with
  | nil =>
    constructor
    · intro h
      cases h
    · intro h
      cases h
  | cons token rest ih =>
    rw [List.forall_mem_cons] at hne
    by_cases hdigits : token.all Text.isDigit = true
    · by_cases hreadable : IsReadable token
      · by_cases hoption : IsOption count token
        · -- the tokens behind decide
          obtain ⟨n, hnumber, hlt⟩ := hoption
          rw [selectTokens_option hne.1 hreadable hnumber hlt]
          constructor
          · intro h
            refine .behind hreadable ⟨n, hnumber, hlt⟩ ((ih hne.2).mp ?_)
            cases hrest : selectTokens count rest with
            | ok r =>
              rw [hrest] at h
              cases h
            | error other =>
              cases other
              cases fault
              rfl
          · intro h
            cases h with
            | here _ hnot => exact absurd hreadable hnot
            | behind _ _ h =>
              rw [(ih hne.2).mpr h]
              rfl
        · rw [selectTokens_not_option hne.1 hreadable hoption]
          constructor
          · intro h
            cases h
          · intro h
            cases h with
            | here _ hnot => exact absurd hreadable hnot
            | behind _ h => exact absurd h hoption
      · rw [selectTokens, hdigits, (numberOf?_eq_none_iff hne.1 hdigits).mpr hreadable]
        cases fault
        exact iff_of_true rfl (.here hdigits hreadable)
    · rw [selectTokens]
      simp only [hdigits]
      constructor
      · intro h
        cases h
      · intro h
        cases h with
        | here h => exact absurd h hdigits
        | behind hreadable hoption =>
          obtain ⟨n, hnumber, -⟩ := hoption
          exact absurd (hreadable.all_isDigit_iff.mpr (by rw [hnumber]; rfl)) hdigits

/-- All tokens can be read where something is selected. -/
lemma isReadable_of_selectTokens {positions : List Nat} (hne : ∀ token ∈ tokens, token ≠ [])
    (h : selectTokens count tokens = .ok (some positions)) :
    ∀ token ∈ tokens, IsReadable token := by
  induction tokens generalizing positions with
  | nil => simp
  | cons token rest ih =>
    rw [List.forall_mem_cons] at hne ⊢
    rw [selectTokens] at h
    split at h
    · cases h
    · rename_i hdigits
      rw [Bool.not_eq_true', Bool.not_eq_false] at hdigits
      split at h
      · cases h
      · rename_i n hnumber
        refine ⟨?_, ?_⟩
        · by_contra hnot
          rw [(numberOf?_eq_none_iff hne.1 hdigits).mpr hnot] at hnumber
          cases hnumber
        · split at h
          · cases h
          · cases hrest : selectTokens count rest with
            | error fault =>
              rw [hrest] at h
              cases h
            | ok r =>
              rw [hrest] at h
              cases r with
              | none => cases h
              | some others => exact ih hne.2 hrest

end

/-! ## Tokens typed in another way -/

/-- **Tokens typed in another way**: in another order, one of them once more, or one with a zero
before it. -/
inductive Retyped : List (List Char) → List (List Char) → Prop
  | order {tokens tokens' : List (List Char)} (h : tokens.Perm tokens') : Retyped tokens tokens'
  | again {token : List Char} {tokens : List (List Char)} (h : token ∈ tokens) :
      Retyped tokens (token :: tokens)
  | zero {c : Char} (hc : Text.decimalValue? c = some 0) (token : List Char)
      (tokens : List (List Char)) : Retyped (token :: tokens) ((c :: token) :: tokens)
  | symm {tokens tokens' : List (List Char)} (h : Retyped tokens tokens') : Retyped tokens' tokens
  | trans {tokens tokens' tokens'' : List (List Char)} (h : Retyped tokens tokens')
      (h' : Retyped tokens' tokens'') : Retyped tokens tokens''

section

variable {count : Int} {tokens tokens' : List (List Char)}

/-- Tokens typed in another way stand for the same numbers. -/
lemma Retyped.mem_numbers_iff (h : Retyped tokens tokens') (v : Option Nat) :
    v ∈ tokens.map tokenNumber? ↔ v ∈ tokens'.map tokenNumber? := by
  induction h with
  | order h => exact (h.map _).mem_iff
  | again h =>
    rw [List.map_cons, List.mem_cons]
    constructor
    · exact .inr
    · rintro (rfl | h')
      · exact List.mem_map_of_mem h
      · exact h'
  | @zero c hc token tokens =>
    have hnumber : tokenNumber? (c :: token) = tokenNumber? token := by
      rw [tokenNumber?_cons, hc]
      simp
    rw [List.map_cons, List.map_cons, hnumber]
  | symm _ ih => exact ih.symm
  | trans _ _ ih ih' => exact ih.trans ih'

/-- Tokens typed in another way select the same. -/
lemma Retyped.selects (h : Retyped tokens tokens') {r : Option (List Nat)}
    (hr : Selects count tokens r) : Selects count tokens' r := by
  have hexists : ∀ P : Option Nat → Prop, (∃ token ∈ tokens, P (tokenNumber? token)) ↔
      ∃ token ∈ tokens', P (tokenNumber? token) := by
    intro P
    have hiff : (∃ v ∈ tokens.map tokenNumber?, P v) ↔ ∃ v ∈ tokens'.map tokenNumber?, P v := by
      simp only [h.mem_numbers_iff]
    simpa using hiff
  cases r with
  | none => exact (hexists fun v => ¬ ∃ n : Nat, v = some (n + 1) ∧ (n : Int) < count).mp hr
  | some positions =>
    obtain ⟨hall, hsorted, hmem⟩ := hr
    refine ⟨fun token htoken => ?_, hsorted, fun n => (hmem n).trans (hexists (· = some (n + 1)))⟩
    by_contra hnot
    obtain ⟨other, hother, hnone⟩ :=
      (hexists fun v => ¬ ∃ n : Nat, v = some (n + 1) ∧ (n : Int) < count).mpr
        ⟨token, htoken, hnot⟩
    exact hnone (hall other hother)

end

/-! ## Typed answers -/

section

variable {answer : String}

/-- A typed answer selects what its tokens do, if they can be read. -/
lemma exists_parseSelection (count : Int)
    (hreadable : ∀ token ∈ selectionTokens answer.toList, IsReadable token) :
    ∃ r, parseSelection answer count = .ok r ∧
      Selects count (selectionTokens answer.toList) r :=
  selects_selectTokens (selectionTokens_ne_nil _) hreadable

lemma parseSelection_eq_iff (count : Int)
    (hreadable : ∀ token ∈ selectionTokens answer.toList, IsReadable token)
    (r : Option (List Nat)) :
    parseSelection answer count = .ok r ↔ Selects count (selectionTokens answer.toList) r := by
  obtain ⟨r', hr', hselects⟩ := exists_parseSelection count hreadable
  rw [hr', Except.ok.injEq]
  constructor
  · rintro rfl
    exact hselects
  · exact hselects.unique

/-- **What a typed answer selects**, if the digits in it are decimal and no token is too long for a
number. The tokens are those that the answer spells. Something is always selected or nothing is, as
the tokens say, and what is selected are options. An answer with the same tokens in another order,
with repetitions, with zeros before them, or with other gaps selects the same.

**Proof sketch.** A text spells one list of tokens (`ThemeOverride.Console.spells_iff`). What tokens
select is proved by induction on them (`ThemeOverride.Console.selects_selectTokens`); it depends on
the set of their numbers alone, which is kept however they are typed. -/
theorem parseSelection_means (answer : String) (count : Int)
    (hreadable : ∀ token ∈ selectionTokens answer.toList, IsReadable token) :
    (∀ tokens, Spells answer.toList tokens ↔ tokens = selectionTokens answer.toList) ∧
    (∃ r, parseSelection answer count = .ok r) ∧
    (∀ r, parseSelection answer count = .ok r ↔ Selects count (selectionTokens answer.toList) r) ∧
    (∀ positions, parseSelection answer count = .ok (some positions) →
      ∀ n ∈ positions, (n : Int) < count) ∧
    ∀ (other : String) (tokens : List (List Char)), Spells other.toList tokens →
      (∀ token ∈ tokens, IsReadable token) → Retyped (selectionTokens answer.toList) tokens →
        parseSelection other count = parseSelection answer count := by
  obtain ⟨r, hr, hselects⟩ := exists_parseSelection count hreadable
  have hiff := parseSelection_eq_iff count hreadable
  refine ⟨fun tokens => spells_iff, ⟨r, hr⟩, hiff, fun positions hpositions n hn => ?_, ?_⟩
  · exact ((hiff _).mp hpositions).lt hn
  · intro other tokens hspells hother hretyped
    obtain rfl := hspells.tokens_eq
    rw [hr]
    exact (parseSelection_eq_iff count hother r).mpr (hretyped.selects hselects)

end

/-- Options one and three, typed in two ways. -/
theorem parseSelection_twice :
    (∀ token ∈ selectionTokens " 3,, 1 3".toList, IsReadable token) ∧
    parseSelection " 3,, 1 3" 3 = .ok (some [0, 2]) ∧
    parseSelection "1 03," 3 = .ok (some [0, 2]) := by
  have hreadable : ∀ token ∈ selectionTokens " 3,, 1 3".toList, IsReadable token := by
    decide
  have hfirst : parseSelection " 3,, 1 3" 3 = .ok (some [0, 2]) := by decide
  have htokens : selectionTokens " 3,, 1 3".toList = [['3'], ['1'], ['3']] := by decide
  have hother : selectionTokens "1 03,".toList = [['1'], ['0', '3']] := by decide
  have hretyped : Retyped [['3'], ['1'], ['3']] [['1'], ['0', '3']] := by
    have honce : Retyped [['3'], ['1'], ['3']] [['3'], ['1']] :=
      (Retyped.order (List.reverse_perm [['3'], ['1'], ['3']])).trans
        ((Retyped.again (by simp)).symm.trans (.order (.swap _ _ _)))
    exact honce.trans ((Retyped.zero (c := '0') (by decide) ['3'] [['1']]).trans
      (.order (.swap _ _ _)))
  obtain ⟨-, -, -, -, hsame⟩ := parseSelection_means " 3,, 1 3" 3 hreadable
  refine ⟨hreadable, hfirst, ?_⟩
  rw [hsame "1 03," _ (spells_iff.mpr hother.symm) (by decide) (htokens ▸ hretyped), hfirst]

end ThemeOverride.Console
