import Mathlib.Data.List.Find
import Mathlib.Tactic.Lemma
import ThemeOverride.Proofs.Script.Depth

/-!
# Templates of texts

A template is a text with place holders, which stand for blanks, for words, for texts in quotes, or
for any text at all. Where a scanner does not look into a place holder any further than what it
stands for allows, it finds the same in the template and in every text made from it, up to the
place holders in what it finds.

## Main definitions

* `ThemeOverride.Script.Slot`, `slotOf` — what a place holder stands for.
* `ThemeOverride.Script.Filling` — what is put in the place of each place holder.
* `ThemeOverride.Script.Filling.expand`, `Filling.tree` — a text and a tree made from a template.
* `ThemeOverride.Script.Scanner.isKnown`, `Test.isKnown` — a template says enough to a scanner or
  test.

## Main results

* `ThemeOverride.Script.Filling.length_expand` — what a scanner finds in a text made from a template.
* `ThemeOverride.Script.Filling.holds_expand` — which tests such a text passes.
* `ThemeOverride.Script.Filling.readToken_expand` — which token such a text begins with.

## Design

The place holders are characters of a private area, which may stand in words, and a space that
separates tokens, so that a template is a text itself and is scanned as one. A scanner is told
nothing about a place holder that it does not need to know: a word goes on to its end, is not the
keyword that is looked for, and begins no mark and no number.
-/

namespace ThemeOverride.Script

/-! ## Characters -/

/-- What holds of the first 128 characters holds of each of them. -/
lemma of_ascii {p : Char → Prop} (h : ∀ n < 128, p (Char.ofNat n)) {c : Char}
    (hc : c.toNat < 128) : p c := by
  rw [← Char.ofNat_toNat c]
  exact h _ hc

lemma isSeparator_of_isNameStart {c : Char} (h : isNameStart c) : isSeparator c = false := by
  by_cases hc : c.toNat < 128
  · have hall : ∀ n < 128, isNameStart (Char.ofNat n) → isSeparator (Char.ofNat n) = false := by
      decide
    exact of_ascii (p := fun c => isNameStart c → isSeparator c = false) hall hc h
  · unfold isNameStart at h
    rw [if_neg hc, Bool.not_eq_true'] at h
    exact h

lemma isDigit_of_isNameStart {c : Char} (h : isNameStart c) : c.isDigit = false := by
  by_cases hc : c.toNat < 128
  · have hall : ∀ n < 128, isNameStart (Char.ofNat n) → (Char.ofNat n).isDigit = false := by
      decide
    exact of_ascii (p := fun c => isNameStart c → c.isDigit = false) hall hc h
  · rw [Bool.eq_false_iff]
    intro hd
    simp only [Char.isDigit, Bool.and_eq_true, decide_eq_true_eq] at hd
    have : c.toNat ≤ 57 := hd.2
    omega

lemma isSeparator_of_isSpace {c : Char} (h : isSpace c) : isSeparator c := by
  unfold isSpace at h
  unfold isSeparator
  simp only [Bool.or_eq_true, Bool.and_eq_true, decide_eq_true_eq, beq_iff_eq] at h ⊢
  grind

lemma isSpace_of_isNameStart {c : Char} (h : isNameStart c) : isSpace c = false := by
  rw [Bool.eq_false_iff]
  intro hspace
  have hseparator := isSeparator_of_isSpace hspace
  rw [isSeparator_of_isNameStart h] at hseparator
  cases hseparator

lemma isNamePart_of_isNameStart {c : Char} (h : isNameStart c) : isNamePart c := by
  unfold isNamePart
  rw [h]
  rfl

/-- Words do not begin with a character that words cannot begin with. -/
lemma ne_of_isNameStart {c d : Char} (h : isNameStart c) (hd : isNameStart d = false) : c ≠ d := by
  rintro rfl
  rw [h] at hd
  cases hd

lemma ne_of_isNamePart {c d : Char} (h : isNamePart c) (hd : isNamePart d = false) : c ≠ d := by
  rintro rfl
  rw [h] at hd
  cases hd

lemma isLineEnd_of_isNamePart {c : Char} (h : isNamePart c) : isLineEnd c = false := by
  unfold isLineEnd
  simp only [Bool.or_eq_false_iff, beq_eq_false_iff_ne]
  exact ⟨⟨⟨ne_of_isNamePart h (by decide), ne_of_isNamePart h (by decide)⟩,
    ne_of_isNamePart h (by decide)⟩, ne_of_isNamePart h (by decide)⟩

/-- Whether a text is a word without escapes. -/
def isWord : List Char → Bool
  | [] => false
  | c :: rest => isNameStart c && rest.all isNamePart

/-- Whether a character may stand within quotes of either kind. -/
def isQuotable (c : Char) : Bool :=
  c != '\x27' && c != '\x22' && c != '\\' && c != '\r' && c != '\n'

lemma isWord_iff {s : List Char} :
    isWord s ↔ ∃ c rest, s = c :: rest ∧ isNameStart c ∧ ∀ d ∈ rest, isNamePart d := by
  cases s with
  | nil => simp [isWord]
  | cons c rest =>
    unfold isWord
    rw [Bool.and_eq_true, List.all_eq_true]
    constructor
    · rintro ⟨hc, hrest⟩
      exact ⟨c, rest, rfl, hc, hrest⟩
    · rintro ⟨d, more, heq, hd, hmore⟩
      cases heq
      exact ⟨hd, hmore⟩

lemma isNamePart_of_mem_word {s : List Char} (h : isWord s) {d : Char} (hd : d ∈ s) :
    isNamePart d := by
  obtain ⟨c, rest, rfl, hc, hrest⟩ := isWord_iff.mp h
  rcases List.mem_cons.mp hd with rfl | hd
  · exact isNamePart_of_isNameStart hc
  · exact hrest d hd

lemma isQuotable_of_isNamePart {c : Char} (h : isNamePart c) : isQuotable c := by
  unfold isQuotable
  simp only [Bool.and_eq_true, bne_iff_ne]
  exact ⟨⟨⟨⟨ne_of_isNamePart h (by decide), ne_of_isNamePart h (by decide)⟩,
    ne_of_isNamePart h (by decide)⟩, ne_of_isNamePart h (by decide)⟩,
    ne_of_isNamePart h (by decide)⟩

/-! ## Place holders -/

/-- What a place holder stands for. -/
inductive Slot where
  /-- Blanks, perhaps none. -/
  | blanks
  /-- A word unlike some others. -/
  | word (isUnlike : String → Bool)
  /-- A text that may stand in quotes. -/
  | quoted
  /-- Any text. -/
  | any

/-- Whether a text may take the place of a place holder. -/
def Slot.Admits : Slot → List Char → Prop
  | blanks, s => ∀ c ∈ s, isSeparator c
  | word isUnlike, s => isWord s ∧ ∀ w : String, isUnlike w → w.toList ≠ s
  | quoted, s => s ≠ [] ∧ ∀ c ∈ s, isQuotable c
  | any, _ => True

/-- The words that mean something to a grammar where the name of a declaration stands. -/
def markedWords : List String := ["enum", "extends", "implements", "typeof"]

/-- Whether a word is told from all that begin with `source`. -/
def isForeign (w : String) : Bool :=
  !("source".toList.isPrefixOf w.toList || "Source".toList.isPrefixOf w.toList)

/-- The places of a template: blanks, the name of an export where it is declared and where it is
listed, the name under which it is imported, the path of a module, and the text that follows. -/
inductive Place where
  | gap
  | name
  | listed
  | localName
  | path
  | rest
  deriving DecidableEq

/-- What may stand at a place. -/
def Place.slot : Place → Slot
  | gap => .blanks
  | name => .word markedWords.contains
  | listed => .word ("type" :: markedWords).contains
  | localName => .word isForeign
  | path => .quoted
  | rest => .any

/-- The place that a character stands for in a template; nothing if it stands for itself. -/
def placeOf : Char → Option Place
  | '\u3000' => some .gap
  | '\ue000' => some .name
  | '\ue001' => some .localName
  | '\ue002' => some .path
  | '\ue003' => some .rest
  | '\ue004' => some .listed
  | _ => none

/-- What may be put in the place of a character in a template. -/
def slotOf (c : Char) : Option Slot := (placeOf c).map Place.slot

/-- Whether a character stands for itself. -/
def isOrdinary (c : Char) : Bool := (slotOf c).isNone

/-- Whether a character stands for itself or for a word. -/
def isWordy (c : Char) : Bool :=
  match slotOf c with
  | none | some (.word _) => true
  | _ => false

/-- What is put in each place of a template. -/
structure Filling where
  value : Place → List Char
  admits (p : Place) : p.slot.Admits (value p)

/-- Place holders for words may begin words. -/
lemma isNameStart_of_slotOf {c : Char} {isUnlike : String → Bool}
    (h : slotOf c = some (.word isUnlike)) : isNameStart c := by
  unfold slotOf placeOf at h
  split at h <;> first | decide | cases h

/-- What separates tokens stands for itself or for blanks. -/
lemma slotOf_of_isSeparator {c : Char} (h : isSeparator c) :
    slotOf c = none ∨ slotOf c = some .blanks := by
  unfold slotOf placeOf
  split
  · exact Or.inr rfl
  · exact absurd h (by decide)
  · exact absurd h (by decide)
  · exact absurd h (by decide)
  · exact absurd h (by decide)
  · exact absurd h (by decide)
  · exact Or.inl rfl

lemma isOrdinary_iff {c : Char} : isOrdinary c ↔ slotOf c = none := Option.isNone_iff_eq_none

lemma isWordy_of_isOrdinary {c : Char} (h : isOrdinary c) : isWordy c := by
  unfold isWordy
  rw [isOrdinary_iff.mp h]

lemma isOrdinary_of_isLineEnd {c : Char} (h : isLineEnd c) : isOrdinary c := by
  unfold isLineEnd at h
  simp only [Bool.or_eq_true, beq_iff_eq] at h
  rcases h with ((rfl | rfl) | rfl) | rfl <;> rfl

namespace Filling

variable (F : Filling)

/-- What is put in the place of a character. -/
def fill (c : Char) : List Char := ((placeOf c).map F.value).getD [c]

lemma fill_ordinary {c : Char} (h : slotOf c = none) : F.fill c = [c] := by
  unfold fill
  rw [Option.map_eq_none_iff.mp h]
  rfl

lemma admits_fill {c : Char} {slot : Slot} (h : slotOf c = some slot) : slot.Admits (F.fill c) := by
  obtain ⟨p, hp, rfl⟩ := Option.map_eq_some_iff.mp h
  unfold fill
  rw [hp]
  exact F.admits p

/-- The text made from a template. -/
def expand (s : List Char) : List Char := s.flatMap F.fill

@[simp] lemma expand_nil : F.expand [] = [] := rfl

@[simp] lemma expand_cons (c : Char) (s : List Char) :
    F.expand (c :: s) = F.fill c ++ F.expand s := List.flatMap_cons

@[simp] lemma expand_append (s t : List Char) : F.expand (s ++ t) = F.expand s ++ F.expand t :=
  List.flatMap_append

lemma expand_take_append_drop (n : Nat) (s : List Char) :
    F.expand (s.take n) ++ F.expand (s.drop n) = F.expand s := by
  rw [← expand_append, List.take_append_drop]

lemma take_expand (n : Nat) (s : List Char) :
    (F.expand s).take (F.expand (s.take n)).length = F.expand (s.take n) := by
  rw [← F.expand_take_append_drop n s, List.take_left']
  rfl

lemma drop_expand (n : Nat) (s : List Char) :
    (F.expand s).drop (F.expand (s.take n)).length = F.expand (s.drop n) := by
  rw [← F.expand_take_append_drop n s, List.drop_left']
  rfl

/-- A text without place holders is made from itself. -/
lemma expand_ordinary {s : List Char} (h : s.all isOrdinary) : F.expand s = s := by
  induction s with
  | nil => rfl
  | cons c rest ih =>
    rw [List.all_cons, Bool.and_eq_true] at h
    rw [expand_cons, F.fill_ordinary (isOrdinary_iff.mp h.1), ih h.2]
    rfl

lemma fill_word {c : Char} {isUnlike : String → Bool} (h : slotOf c = some (.word isUnlike)) :
    ∃ d rest, F.fill c = d :: rest ∧ isNameStart d ∧ ∀ e ∈ rest, isNamePart e :=
  isWord_iff.mp (F.admits_fill h).1

/-- A run of characters of one kind, up to a character that ends it. -/
lemma takeWhile_expand {p : Char → Bool} {s : List Char}
    (hrun : ∀ c ∈ s.takeWhile p, ∀ d ∈ F.fill c, p d)
    (hstop : ∀ c, (s.dropWhile p).head? = some c → ∃ d rest, F.fill c = d :: rest ∧ p d = false) :
    (F.expand s).takeWhile p = F.expand (s.takeWhile p) ∧
      (F.expand s).dropWhile p = F.expand (s.dropWhile p) := by
  have hall : ∀ d ∈ F.expand (s.takeWhile p), p d := by
    intro d hd
    obtain ⟨c, hc, hd⟩ := List.mem_flatMap.mp hd
    exact hrun c hc d hd
  have hsplit : F.expand s = F.expand (s.takeWhile p) ++ F.expand (s.dropWhile p) := by
    rw [← expand_append, List.takeWhile_append_dropWhile]
  rw [hsplit, List.takeWhile_append_of_pos hall, List.dropWhile_append_of_pos hall]
  cases hd : s.dropWhile p with
  | nil => simp
  | cons c rest =>
    obtain ⟨d, more, hfill, hpd⟩ := hstop c (by rw [hd]; rfl)
    rw [expand_cons, hfill, List.cons_append, List.takeWhile_cons_of_neg (by simp [hpd]),
      List.dropWhile_cons_of_neg (by simp [hpd])]
    simp

end Filling

/-! ## The start of a text -/

/-- Whether a template begins with a character that stands for itself or for a word, or is at its
end. -/
def beginsKnown : List Char → Bool
  | [] => true
  | c :: _ => isWordy c

/-- Whether a template is known not to begin with characters of a kind, of which no word begins
with one. -/
def beginsUnlike (p : Char → Bool) : List Char → Bool
  | [] => true
  | c :: _ => isWordy c && !p c

namespace Filling

variable (F : Filling)

/-- A text made from a template begins with the same character or with a word. -/
lemma expand_cons_cases {c : Char} (h : isWordy c) (rest : List Char) :
    (isOrdinary c ∧ F.expand (c :: rest) = c :: F.expand rest) ∨
      (isNameStart c ∧ ∃ d more, F.expand (c :: rest) = d :: (more ++ F.expand rest) ∧
        isNameStart d ∧ F.fill c = d :: more) := by
  unfold isWordy at h
  split at h
  · rename_i hc
    refine Or.inl ⟨isOrdinary_iff.mpr hc, ?_⟩
    rw [expand_cons, F.fill_ordinary hc]
    rfl
  · rename_i hc
    obtain ⟨d, more, hfill, hd, -⟩ := F.fill_word hc
    refine Or.inr ⟨isNameStart_of_slotOf hc, d, more, ?_, hd, hfill⟩
    rw [expand_cons, hfill]
    rfl
  · cases h

/-- A text does not begin in a way that its template is known not to. -/
lemma head?_expand_of_unlike {p : Char → Bool} (hp : ∀ c, isNameStart c → p c = false)
    {s : List Char} (h : beginsUnlike p s) : ∀ c, (F.expand s).head? = some c → p c = false := by
  cases s with
  | nil =>
    intro c hc
    cases hc
  | cons c rest =>
    obtain ⟨hwordy, hpc⟩ := (Bool.and_eq_true _ _).mp h
    intro d hd
    rcases F.expand_cons_cases hwordy rest with ⟨-, heq⟩ | ⟨-, e, more, heq, he, -⟩
    · rw [heq] at hd
      cases hd
      simpa using hpc
    · rw [heq] at hd
      cases hd
      exact hp d he

lemma head?_of_unlike {p : Char → Bool} {s : List Char} (h : beginsUnlike p s) :
    ∀ c, s.head? = some c → p c = false := by
  cases s with
  | nil =>
    intro c hc
    cases hc
  | cons c rest =>
    intro d hd
    cases hd
    simpa using ((Bool.and_eq_true _ _).mp h).2

/-- Whether a text begins with a character that begins no word, its template says. -/
lemma head?_expand_beq {s : List Char} (h : beginsKnown s) {d : Char} (hd : isNameStart d = false) :
    ((F.expand s).head? == some d) = (s.head? == some d) := by
  cases s with
  | nil => rfl
  | cons c rest =>
    rcases F.expand_cons_cases h rest with ⟨-, heq⟩ | ⟨hc, e, more, heq, he, -⟩
    · rw [heq]
      rfl
    · rw [heq, List.head?_cons, List.head?_cons]
      have hne : (some e == some d) = false := by
        simpa using ne_of_isNameStart he hd
      have hne' : (some c == some d) = false := by
        simpa using ne_of_isNameStart hc hd
      rw [hne, hne']

lemma isEmpty_expand {s : List Char} (h : beginsKnown s) :
    (F.expand s).isEmpty = s.isEmpty := by
  cases s with
  | nil => rfl
  | cons c rest =>
    rcases F.expand_cons_cases h rest with ⟨-, heq⟩ | ⟨-, d, more, heq, -⟩
    · rw [heq]
      rfl
    · rw [heq]
      rfl

end Filling

/-! ## Words -/

/-- Whether a word is known to end before a template. -/
def endsWord : List Char → Bool
  | [] => true
  | c :: _ => isOrdinary c && c != '\\'

/-- Whether a template says which word it begins with, or that it begins with none. -/
def wordIsKnown (s : List Char) : Bool :=
  match s with
  | [] => true
  | c :: _ =>
    match slotOf c with
    | none =>
      if isNameStart c then
        (s.takeWhile isNamePart).all isOrdinary && endsWord (s.dropWhile isNamePart)
      else c != '\\'
    | some (.word _) => s.takeWhile isNamePart == [c] && endsWord (s.dropWhile isNamePart)
    | some _ => false

/-- Whether the word that a template begins with is known, or known to be unlike others. -/
def wordsAreKnown (words : List String) (s : List Char) : Bool :=
  wordIsKnown s &&
    match s with
    | [] => true
    | c :: _ =>
      match slotOf c with
      | some (.word isUnlike) => words.all fun w => isUnlike w && w.toList != [c]
      | _ => true

lemma unicodeEscapeLength_of_ne {s : List Char} (h : s.head? ≠ some '\\') :
    unicodeEscapeLength s = none := by
  unfold unicodeEscapeLength
  split
  · exact absurd rfl h
  · exact absurd rfl h
  · rfl

/-- The parts of a word, up to a character that ends it. -/
lemma namePartsLength_eq {s : List Char} (h : (s.dropWhile isNamePart).head? ≠ some '\\')
    {fuel : Nat} (hfuel : s.length ≤ fuel) :
    namePartsLength fuel s = (s.takeWhile isNamePart).length := by
  induction s generalizing fuel with
  | nil => cases fuel <;> rfl
  | cons c rest ih =>
    obtain ⟨fuel, rfl⟩ : ∃ n, fuel = n + 1 := ⟨fuel - 1, by simp at hfuel; omega⟩
    rw [namePartsLength]
    by_cases hc : isNamePart c
    · rw [List.dropWhile_cons_of_pos hc] at h
      rw [if_pos hc, List.takeWhile_cons_of_pos hc, List.length_cons,
        ih h (by simpa using hfuel)]
    · rw [List.dropWhile_cons_of_neg hc] at h
      rw [if_neg hc, unicodeEscapeLength_of_ne h, List.takeWhile_cons_of_neg hc]
      rfl

/-- A text that begins a word begins with the word up to the character that ends it. -/
lemma wordLength_of_start {c : Char} {rest : List Char} (hc : isNameStart c)
    (h : ((c :: rest).dropWhile isNamePart).head? ≠ some '\\') :
    wordLength (c :: rest) = some ((c :: rest).takeWhile isNamePart).length := by
  have hpart := isNamePart_of_isNameStart hc
  rw [List.dropWhile_cons_of_pos hpart] at h
  rw [wordLength, if_pos hc, namePartsLength_eq h (Nat.le_refl _),
    List.takeWhile_cons_of_pos hpart, List.length_cons]

/-- A text that begins no word and no escape has no word at its start. -/
lemma wordLength_of_not_start {s : List Char}
    (h : ∀ c, s.head? = some c → isNameStart c = false ∧ c ≠ '\\') : wordLength s = none := by
  cases s with
  | nil => rfl
  | cons c rest =>
    obtain ⟨hc, hne⟩ := h c rfl
    rw [wordLength, hc, unicodeEscapeLength_of_ne (by simpa using hne)]
    rfl

namespace Filling

variable (F : Filling)

/-- The word that a text begins with is made from the one that its template begins with. -/
lemma takeWhile_isNamePart {s : List Char} (hrun : (s.takeWhile isNamePart).all isWordy)
    (hend : endsWord (s.dropWhile isNamePart)) :
    (F.expand s).takeWhile isNamePart = F.expand (s.takeWhile isNamePart) ∧
      (F.expand s).dropWhile isNamePart = F.expand (s.dropWhile isNamePart) := by
  refine F.takeWhile_expand ?_ ?_
  · intro c hc d hd
    have hpart : isNamePart c := List.all_eq_true.mp List.all_takeWhile c hc
    have hwordy := List.all_eq_true.mp hrun c hc
    unfold isWordy at hwordy
    split at hwordy
    · rename_i hslot
      rw [F.fill_ordinary hslot, List.mem_singleton] at hd
      rwa [hd]
    · rename_i hslot
      exact isNamePart_of_mem_word (F.admits_fill hslot).1 hd
    · cases hwordy
  · intro c hc
    have hneg : isNamePart c = false := by
      have := List.head?_dropWhile_not isNamePart s
      rw [hc] at this
      simpa using this
    cases hd : s.dropWhile isNamePart with
    | nil =>
      rw [hd] at hc
      cases hc
    | cons e more =>
      rw [hd] at hc hend
      cases hc
      have hord := isOrdinary_iff.mp ((Bool.and_eq_true _ _).mp hend).1
      exact ⟨c, [], F.fill_ordinary hord, hneg⟩

/-- A text made from a template that begins a word begins with the word made from it. -/
lemma wordLength_expand_of_start {c : Char} {rest : List Char} (hc : isNameStart c)
    (hrun : ((c :: rest).takeWhile isNamePart).all isWordy)
    (hend : endsWord ((c :: rest).dropWhile isNamePart)) :
    wordLength (c :: rest) = some ((c :: rest).takeWhile isNamePart).length ∧
      wordLength (F.expand (c :: rest)) =
        some (F.expand ((c :: rest).takeWhile isNamePart)).length := by
  obtain ⟨htake, hdrop⟩ := F.takeWhile_isNamePart hrun hend
  have hstop : ((c :: rest).dropWhile isNamePart).head? ≠ some '\\' ∧
      (F.expand ((c :: rest).dropWhile isNamePart)).head? ≠ some '\\' := by
    cases hd : (c :: rest).dropWhile isNamePart with
    | nil => exact ⟨by simp, by simp⟩
    | cons e more =>
      rw [hd] at hend
      obtain ⟨hord, hne⟩ := (Bool.and_eq_true _ _).mp hend
      have hne : e ≠ '\\' := bne_iff_ne.mp hne
      refine ⟨by simpa using hne, ?_⟩
      rw [expand_cons, F.fill_ordinary (isOrdinary_iff.mp hord)]
      simpa using hne
  refine ⟨wordLength_of_start hc hstop.1, ?_⟩
  rw [← hdrop] at hstop
  rw [← htake]
  have hwordy : isWordy c := by
    rw [List.takeWhile_cons_of_pos (isNamePart_of_isNameStart hc), List.all_cons,
      Bool.and_eq_true] at hrun
    exact hrun.1
  rcases F.expand_cons_cases hwordy rest with ⟨-, heq⟩ | ⟨-, d, more, heq, hd, -⟩
  · rw [heq] at hstop ⊢
    exact wordLength_of_start hc hstop.2
  · rw [heq] at hstop ⊢
    exact wordLength_of_start hd hstop.2

/-- **Words.** A template and the texts made from it both begin with no word, or with a word: one
without place holders, or a place holder. -/
lemma wordLength_expand_cases {s : List Char} (h : wordIsKnown s) :
    (wordLength s = none ∧ wordLength (F.expand s) = none) ∨
      ∃ run, run <+: s ∧ wordLength s = some run.length ∧
        wordLength (F.expand s) = some (F.expand run).length ∧
        (run.all isOrdinary ∨ ∃ c isUnlike, s.head? = some c ∧ run = [c] ∧
          slotOf c = some (.word isUnlike)) := by
  cases s with
  | nil => exact Or.inl ⟨rfl, rfl⟩
  | cons c rest =>
    unfold wordIsKnown at h
    dsimp only at h
    split at h
    · rename_i hslot
      split at h
      · rename_i hc
        obtain ⟨hrun, hend⟩ := (Bool.and_eq_true _ _).mp h
        have hwordy : ((c :: rest).takeWhile isNamePart).all isWordy := by
          refine List.all_eq_true.mpr fun d hd => ?_
          exact isWordy_of_isOrdinary (List.all_eq_true.mp hrun d hd)
        obtain ⟨hlength, hexpand⟩ := F.wordLength_expand_of_start hc hwordy hend
        exact Or.inr ⟨_, List.takeWhile_prefix _, hlength, hexpand, Or.inl hrun⟩
      · rename_i hc
        have hne : c ≠ '\\' := bne_iff_ne.mp h
        have hhead : ∀ d, (c :: rest).head? = some d → isNameStart d = false ∧ d ≠ '\\' := by
          intro d hd
          cases hd
          exact ⟨by simpa using hc, hne⟩
        refine Or.inl ⟨wordLength_of_not_start hhead, wordLength_of_not_start ?_⟩
        rw [expand_cons, F.fill_ordinary hslot]
        exact hhead
    · rename_i isUnlike hslot
      obtain ⟨hrun, hend⟩ := (Bool.and_eq_true _ _).mp h
      have hrun : (c :: rest).takeWhile isNamePart = [c] := beq_iff_eq.mp hrun
      have hwordy : ((c :: rest).takeWhile isNamePart).all isWordy := by
        rw [hrun, List.all_cons]
        unfold isWordy
        rw [hslot]
        rfl
      obtain ⟨hlength, hexpand⟩ :=
        F.wordLength_expand_of_start (isNameStart_of_slotOf hslot) hwordy hend
      exact Or.inr ⟨_, List.takeWhile_prefix _, hlength, hexpand,
        Or.inr ⟨c, isUnlike, rfl, hrun, hslot⟩⟩
    · cases h

/-- A template says which word a text made from it begins with. -/
lemma wordLength_expand {s : List Char} (h : wordIsKnown s) :
    wordLength (F.expand s) = (wordLength s).map fun n => (F.expand (s.take n)).length := by
  rcases F.wordLength_expand_cases h with ⟨hs, ht⟩ | ⟨run, hfront, hs, ht, -⟩
  · rw [hs, ht]
    rfl
  · rw [hs, ht, Option.map_some, ← List.prefix_iff_eq_take.mp hfront]

/-- A word of a text is one of some words where its template says so. -/
lemma word_expand_beq {words : List String} {s : List Char} (h : wordsAreKnown words s)
    {w : String} (hw : w ∈ words) {n : Nat} (hn : wordLength s = some n) :
    (w.toList == F.expand (s.take n)) = (w.toList == s.take n) := by
  obtain ⟨hknown, hunlike⟩ := (Bool.and_eq_true _ _).mp h
  rcases F.wordLength_expand_cases hknown with ⟨hs, -⟩ | ⟨run, hfront, hs, -, hrun⟩
  · rw [hs] at hn
    cases hn
  · rw [hs] at hn
    cases hn
    rw [← List.prefix_iff_eq_take.mp hfront]
    rcases hrun with hrun | ⟨c, isUnlike, hhead, rfl, hslot⟩
    · rw [F.expand_ordinary hrun]
    · obtain ⟨rest, rfl⟩ : ∃ rest, s = c :: rest := by
        cases s with
        | nil => cases hhead
        | cons d rest =>
          cases hhead
          exact ⟨rest, rfl⟩
      dsimp only at hunlike
      rw [hslot] at hunlike
      have hone := List.all_eq_true.mp hunlike w hw
      obtain ⟨hun, hne⟩ := (Bool.and_eq_true _ _).mp hone
      have hfill : w.toList ≠ F.expand [c] := by
        rw [expand_cons, expand_nil, List.append_nil]
        exact (F.admits_fill hslot).2 w hun
      have hne : w.toList ≠ [c] := bne_iff_ne.mp hne
      rw [beq_eq_false_iff_ne.mpr hfill, beq_eq_false_iff_ne.mpr hne]

end Filling

/-! ## Marks, numbers and literals -/

/-- Whether a template says whether it begins with a mark. -/
def markIsKnown : List Char → List Char → Bool
  | [], _ => true
  | _ :: _, [] => true
  | m :: mark, c :: rest =>
    match slotOf c with
    | none => m != c || markIsKnown mark rest
    | some (.word _) => !isNamePart m
    | some _ => false

/-- Whether a character occurs in operators. -/
def isOperatorChar (c : Char) : Bool := "=!<>&|?+-*/%^~.".toList.contains c

/-- Whether a template says which operator it begins with. -/
def operatorIsKnown (s : List Char) : Bool :=
  beginsUnlike (· == '?') s && beginsKnown (s.dropWhile isOperatorChar)

/-- Whether a template says that it begins with no number. -/
def numberIsKnown (s : List Char) : Bool :=
  match s with
  | '.' :: rest => beginsUnlike Char.isDigit rest
  | _ => beginsUnlike (fun c => c.isDigit || c == '.') s

/-- Whether a template says which comment it begins with. -/
def commentIsKnown (s : List Char) : Bool :=
  match s with
  | '/' :: '/' :: line => (line.takeWhile (!isLineEnd ·)).all isWordy
  | '/' :: rest => beginsUnlike (fun c => c == '/' || c == '*') rest
  | _ => beginsUnlike (· == '/') s

/-- Whether a stretch of a string in the given quotes goes on with a character. -/
def isInString (quote c : Char) : Bool :=
  c != quote && c != '\\' && c != '\r' && c != '\n'

/-- Whether a template says which stretch of a string it begins with. -/
def stringFragmentIsKnown (quote : Char) (s : List Char) : Bool :=
  (quote == '\x27' || quote == '\x22') &&
    (s.takeWhile (isInString quote)).all fun c =>
      match slotOf c with
      | none | some (.word _) | some .quoted => true
      | _ => false

namespace Filling

variable (F : Filling)

lemma mark_expand {m : String} {s : List Char} (h : markIsKnown m.toList s) :
    mark m (F.expand s) = (mark m s).map fun n => (F.expand (s.take n)).length := by
  -- a mark that a template begins with has no place holders in it
  have hkey : ∀ m s : List Char, markIsKnown m s →
      m.isPrefixOf (F.expand s) = m.isPrefixOf s ∧ (m.isPrefixOf s → m.all isOrdinary) := by
    intro m
    induction m with
    | nil => exact fun s _ => ⟨rfl, fun _ => rfl⟩
    | cons x m ih =>
      intro s h
      cases s with
      | nil => exact ⟨rfl, fun h => nomatch h⟩
      | cons c rest =>
        unfold markIsKnown at h
        split at h
        · rename_i hslot
          rw [expand_cons, F.fill_ordinary hslot, List.singleton_append, List.isPrefixOf_cons_cons,
            List.isPrefixOf_cons_cons]
          by_cases hx : x = c
          · have hrest : markIsKnown m rest := by simpa [hx] using h
            obtain ⟨heq, hall⟩ := ih rest hrest
            refine ⟨by rw [heq], fun hm => ?_⟩
            rw [List.all_cons, Bool.and_eq_true]
            exact ⟨by rw [hx]; exact isOrdinary_iff.mpr hslot,
              hall ((Bool.and_eq_true _ _).mp hm).2⟩
          · have hne : (x == c) = false := beq_eq_false_iff_ne.mpr hx
            simp [hne]
        · rename_i hslot
          have hx : isNamePart x = false := by simpa using h
          obtain ⟨d, more, hfill, hd, -⟩ := F.fill_word hslot
          have hne : ∀ e, isNameStart e → (x == e) = false := fun e he =>
            beq_eq_false_iff_ne.mpr
              (ne_of_isNamePart (isNamePart_of_isNameStart he) hx).symm
          rw [expand_cons, hfill, List.cons_append, List.isPrefixOf_cons_cons, List.isPrefixOf_cons_cons,
            hne d hd, hne c (isNameStart_of_slotOf hslot)]
          exact ⟨rfl, fun h => nomatch h⟩
        · cases h
  obtain ⟨heq, hall⟩ := hkey _ _ h
  unfold mark
  rw [heq]
  split
  · rename_i hm
    have hfront := List.isPrefixOf_iff_prefix.mp hm
    have htake : s.take m.length = m.toList := by
      rw [List.prefix_iff_eq_take.mp hfront, String.length_toList]
    rw [Option.map_some, htake, F.expand_ordinary (hall hm), String.length_toList]
  · rfl

/-- What an operator is depends on the characters of operators at the start of a text alone. -/
lemma operatorAt_takeWhile {s : List Char} (h : s.head? ≠ some '?') :
    operatorAt s = operators.find? fun o => o.toList.isPrefixOf (s.takeWhile isOperatorChar) := by
  have hfind : operatorAt s = operators.find? fun o => o.toList.isPrefixOf s := by
    unfold operatorAt
    split
    · exact absurd rfl h
    · rfl
  rw [hfind]
  have hall : ∀ o ∈ operators, o.toList.all isOperatorChar := by decide
  have hpre : ∀ o s : List Char, o.all isOperatorChar →
      o.isPrefixOf s = o.isPrefixOf (s.takeWhile isOperatorChar) := by
    intro o
    induction o with
    | nil => exact fun s _ => by simp
    | cons x o ih =>
      intro s ho
      obtain ⟨hx, ho⟩ := (Bool.and_eq_true _ _).mp ho
      cases s with
      | nil => rfl
      | cons c rest =>
        by_cases hc : isOperatorChar c
        · rw [List.takeWhile_cons_of_pos hc, List.isPrefixOf_cons_cons, List.isPrefixOf_cons_cons,
            ih rest ho]
        · have hne : (x == c) = false := beq_eq_false_iff_ne.mpr fun h0 => hc (h0 ▸ hx)
          rw [List.takeWhile_cons_of_neg hc, List.isPrefixOf_cons_cons, hne]
          rfl
  exact List.find?_congr fun o ho => hpre _ _ (hall o ho)

/-- Characters of operators stand for themselves and are in no word. -/
lemma of_isOperatorChar {c : Char} (h : isOperatorChar c) :
    isOrdinary c ∧ isNameStart c = false := by
  have hall : "=!<>&|?+-*/%^~.".toList.all fun c => isOrdinary c && !isNameStart c := by rfl
  have hc := List.all_eq_true.mp hall c (List.contains_iff_mem.mp h)
  rwa [Bool.and_eq_true, Bool.not_eq_true'] at hc

/-- A text begins with the operator that its template begins with. -/
lemma operatorAt_expand {s : List Char} (h : operatorIsKnown s) :
    operatorAt (F.expand s) = operatorAt s := by
  obtain ⟨hmark, hstop⟩ := (Bool.and_eq_true _ _).mp h
  have hne : ∀ t : List Char, (∀ c, t.head? = some c → (c == '?') = false) →
      t.head? ≠ some '?' := by
    intro t ht h0
    exact absurd (ht _ h0) (by decide)
  have hname : ∀ c, isNameStart c → (c == '?') = false := fun c hc =>
    beq_eq_false_iff_ne.mpr (ne_of_isNameStart hc (by decide))
  rw [operatorAt_takeWhile (hne _ (head?_of_unlike hmark)),
    operatorAt_takeWhile (hne _ (F.head?_expand_of_unlike hname hmark))]
  have hall : ∀ c ∈ s.takeWhile isOperatorChar, isOperatorChar c :=
    fun c hc => List.all_eq_true.mp List.all_takeWhile c hc
  have hfill : ∀ c, isOperatorChar c → F.fill c = [c] := fun c hc =>
    F.fill_ordinary (isOrdinary_iff.mp (of_isOperatorChar hc).1)
  have hrun : ∀ c ∈ s.takeWhile isOperatorChar, ∀ d ∈ F.fill c, isOperatorChar d := by
    intro c hc d hd
    rw [hfill c (hall c hc), List.mem_singleton] at hd
    rw [hd]
    exact hall c hc
  have hend : ∀ c, (s.dropWhile isOperatorChar).head? = some c →
      ∃ d rest, F.fill c = d :: rest ∧ isOperatorChar d = false := by
    intro c hc
    have hneg := List.head?_dropWhile_not isOperatorChar s
    rw [hc] at hneg
    cases hd : s.dropWhile isOperatorChar with
    | nil =>
      rw [hd] at hc
      cases hc
    | cons e more =>
      rw [hd] at hc hstop
      cases hc
      rcases F.expand_cons_cases hstop [] with ⟨hord, -⟩ | ⟨-, d, rest, -, hd, hfill⟩
      · exact ⟨c, [], F.fill_ordinary (isOrdinary_iff.mp hord), by simpa using hneg⟩
      · refine ⟨d, rest, hfill, ?_⟩
        rw [Bool.eq_false_iff]
        intro hop
        rw [(of_isOperatorChar hop).2] at hd
        cases hd
  rw [(F.takeWhile_expand hrun hend).1, F.expand_ordinary (List.all_eq_true.mpr fun c hc =>
    (of_isOperatorChar (hall c hc)).1)]

/-- The text of an operator at the start of a template holds no place holders. -/
lemma length_expand_operator {s : List Char} {o : String} (h : operatorAt s = some o)
    (hmark : beginsUnlike (· == '?') s) : (F.expand (s.take o.length)).length = o.length := by
  have hne : s.head? ≠ some '?' := fun h0 => absurd (head?_of_unlike hmark _ h0) (by decide)
  have hfind : operators.find? (fun o => o.toList.isPrefixOf s) = some o := by
    unfold operatorAt at h
    split at h
    · exact absurd rfl hne
    · exact h
  have hall : ∀ o ∈ operators, o.toList.all isOrdinary := by decide
  have hpre := List.find?_some hfind
  have hfront : o.toList <+: s := List.isPrefixOf_iff_prefix.mp hpre
  have htake : s.take o.length = o.toList := by
    rw [List.prefix_iff_eq_take.mp hfront, String.length_toList]
  rw [htake, F.expand_ordinary (hall o (List.mem_of_find?_eq_some hfind)), String.length_toList]

/-- A number begins with a digit, or with a full stop and a digit. -/
lemma numberLength_eq_none {s : List Char} (h : ∀ c, s.head? = some c → c.isDigit = false)
    (hdot : ∀ rest, s = '.' :: rest → ∀ c, rest.head? = some c → c.isDigit = false) :
    numberLength s = none := by
  have hrun : ∀ t : List Char, (∀ c, t.head? = some c → c.isDigit = false) →
      digitRun Char.isDigit t = 0 := by
    intro t ht
    unfold digitRun
    cases t with
    | nil => rfl
    | cons c rest =>
      rw [List.head?_cons, Option.any_some, ht c rfl]
      rfl
  have hradix : ∀ letters digit, radixLength letters digit s = none := by
    intro letters digit
    unfold radixLength
    split
    · exact absurd (h '0' rfl) (by decide)
    · rfl
  have hdecimal : decimalLength s = none := by
    unfold decimalLength
    dsimp only
    rw [hrun s h, List.drop_zero]
    split
    · rw [hrun _ (hdot _ rfl)]
      rfl
    · rfl
    · rfl
  unfold numberLength
  rw [hradix, hradix, hradix, hdecimal]
  rfl

/-- Neither a template nor a text made from it begins with a number. -/
lemma numberLength_expand {s : List Char} (h : numberIsKnown s) :
    numberLength s = none ∧ numberLength (F.expand s) = none := by
  have hname : ∀ c, isNameStart c → (c.isDigit || c == '.') = false := by
    intro c hc
    have hne := beq_eq_false_iff_ne.mpr (ne_of_isNameStart (d := '.') hc (by decide))
    rw [isDigit_of_isNameStart hc, hne]
    rfl
  have hplain : ∀ t : List Char, (∀ c, t.head? = some c → (c.isDigit || c == '.') = false) →
      numberLength t = none := by
    intro t ht
    refine numberLength_eq_none (fun c hc => (Bool.or_eq_false_iff.mp (ht c hc)).1) ?_
    rintro rest rfl
    exact absurd (ht '.' rfl) (by decide)
  unfold numberIsKnown at h
  split at h
  · rename_i rest
    rw [expand_cons, F.fill_ordinary rfl, List.singleton_append]
    have hdot : ∀ t : List Char, (∀ c, t.head? = some c → c.isDigit = false) →
        numberLength ('.' :: t) = none := by
      intro t ht
      refine numberLength_eq_none ?_ ?_
      · intro c hc
        cases hc
        decide
      · rintro rest heq
        cases heq
        exact ht
    exact ⟨hdot _ (head?_of_unlike h),
      hdot _ (F.head?_expand_of_unlike (fun c hc => isDigit_of_isNameStart hc) h)⟩
  · exact ⟨hplain _ (head?_of_unlike h), hplain _ (F.head?_expand_of_unlike hname h)⟩

lemma fill_of_isWordy {c : Char} (h : isWordy c) : F.fill c = [c] ∨ isWord (F.fill c) := by
  unfold isWordy at h
  split at h
  · rename_i hslot
    exact Or.inl (F.fill_ordinary hslot)
  · rename_i hslot
    exact Or.inr (F.admits_fill hslot).1
  · cases h

/-- A text begins with the comment that its template begins with. -/
lemma commentLength_expand {s : List Char} (h : commentIsKnown s) :
    commentLength (F.expand s) =
      (commentLength s).map fun n => (F.expand (s.take n)).length := by
  have hplain : ∀ t : List Char, (∀ c, t.head? = some c → (c == '/') = false) →
      commentLength t = none := by
    intro t ht
    unfold commentLength
    split
    · exact absurd (ht '/' rfl) (by decide)
    · exact absurd (ht '/' rfl) (by decide)
    · rfl
  have hslash : ∀ t : List Char,
      (∀ c, t.head? = some c → (c == '/' || c == '*') = false) →
      commentLength ('/' :: t) = none := by
    intro t ht
    unfold commentLength
    split
    · rename_i heq
      cases heq
      exact absurd (ht '/' rfl) (by decide)
    · rename_i heq
      cases heq
      exact absurd (ht '*' rfl) (by decide)
    · rfl
  unfold commentIsKnown at h
  split at h
  · rename_i line
    -- the comment goes on to the end of the line
    have hrun : ∀ c ∈ line.takeWhile (!isLineEnd ·), ∀ d ∈ F.fill c, (!isLineEnd d) = true := by
      intro c hc d hd
      have hpc := List.all_eq_true.mp List.all_takeWhile c hc
      rcases F.fill_of_isWordy (List.all_eq_true.mp h c hc) with hfill | hfill
      · rw [hfill, List.mem_singleton] at hd
        rwa [hd]
      · rw [isLineEnd_of_isNamePart (isNamePart_of_mem_word hfill hd)]
        rfl
    have hend : ∀ c, (line.dropWhile (!isLineEnd ·)).head? = some c →
        ∃ d rest, F.fill c = d :: rest ∧ (!isLineEnd d) = false := by
      intro c hc
      have hneg := List.head?_dropWhile_not (!isLineEnd ·) line
      rw [hc] at hneg
      have hline : isLineEnd c := by simpa using hneg
      refine ⟨c, [], F.fill_ordinary (isOrdinary_iff.mp (isOrdinary_of_isLineEnd hline)), ?_⟩
      rw [hline]
      rfl
    have htake : line.take (line.takeWhile (!isLineEnd ·)).length =
        line.takeWhile (!isLineEnd ·) :=
      (List.prefix_iff_eq_take.mp (List.takeWhile_prefix _)).symm
    rw [expand_cons, expand_cons, F.fill_ordinary rfl, List.singleton_append,
      List.singleton_append]
    simp only [commentLength, Option.map_some, (F.takeWhile_expand hrun hend).1]
    rw [Nat.add_comm 2 (line.takeWhile _).length, List.take_succ_cons, List.take_succ_cons, htake,
      expand_cons, expand_cons, F.fill_ordinary rfl, List.singleton_append,
      List.singleton_append, List.length_cons, List.length_cons, Nat.add_comm 2]
  · rename_i rest hne
    have hname : ∀ c, isNameStart c → (c == '/' || c == '*') = false := by
      intro c hc
      have h1 := beq_eq_false_iff_ne.mpr (ne_of_isNameStart (d := '/') hc (by decide))
      have h2 := beq_eq_false_iff_ne.mpr (ne_of_isNameStart (d := '*') hc (by decide))
      rw [h1, h2]
      rfl
    rw [hslash _ (head?_of_unlike h), expand_cons, F.fill_ordinary rfl,
      List.singleton_append, hslash _ (F.head?_expand_of_unlike hname h)]
    rfl
  · have hname : ∀ c, isNameStart c → (c == '/') = false := fun c hc =>
      beq_eq_false_iff_ne.mpr (ne_of_isNameStart hc (by decide))
    rw [hplain _ (head?_of_unlike h), hplain _ (F.head?_expand_of_unlike hname h)]
    rfl

/-- A text begins with the stretch of a string that its template begins with. -/
lemma stringFragmentLength_expand {quote : Char} {s : List Char}
    (h : stringFragmentIsKnown quote s) :
    stringFragmentLength quote (F.expand s) =
      (stringFragmentLength quote s).map fun n => (F.expand (s.take n)).length := by
  obtain ⟨hquote, hall⟩ := (Bool.and_eq_true _ _).mp h
  have hquote : quote = '\x27' ∨ quote = '\x22' := by simpa using hquote
  have hquotable : ∀ d, isQuotable d → isInString quote d := by
    intro d hd
    unfold isQuotable at hd
    unfold isInString
    rcases hquote with rfl | rfl <;> simp_all
  have hrun : ∀ c ∈ s.takeWhile (isInString quote), F.fill c ≠ [] ∧ ∀ d ∈ F.fill c, isInString quote d := by
    intro c hc
    have hpc := List.all_eq_true.mp List.all_takeWhile c hc
    have hkind := List.all_eq_true.mp hall c hc
    split at hkind
    · rename_i hslot
      rw [F.fill_ordinary hslot]
      exact ⟨by simp, fun d hd => by rwa [List.mem_singleton.mp hd]⟩
    · rename_i hslot
      obtain ⟨d, rest, hfill, -⟩ := F.fill_word hslot
      refine ⟨by rw [hfill]; simp, fun e he => hquotable e ?_⟩
      exact isQuotable_of_isNamePart (isNamePart_of_mem_word (F.admits_fill hslot).1 he)
    · rename_i hslot
      obtain ⟨hne, hquoted⟩ := F.admits_fill hslot
      exact ⟨hne, fun d hd => hquotable d (hquoted d hd)⟩
    · cases hkind
  have hend : ∀ c, (s.dropWhile (isInString quote)).head? = some c →
      ∃ d rest, F.fill c = d :: rest ∧ isInString quote d = false := by
    intro c hc
    have hneg := List.head?_dropWhile_not (isInString quote) s
    rw [hc] at hneg
    have hpc : isInString quote c = false := by simpa using hneg
    have hord : isOrdinary c := by
      simp only [isInString, Bool.and_eq_false_iff, bne_eq_false_iff_eq] at hpc
      rcases hpc with ((rfl | rfl) | rfl) | rfl
      · rcases hquote with rfl | rfl <;> rfl
      · rfl
      · rfl
      · rfl
    exact ⟨c, [], F.fill_ordinary (isOrdinary_iff.mp hord), hpc⟩
  have htake : s.take (s.takeWhile (isInString quote)).length = s.takeWhile (isInString quote) :=
    (List.prefix_iff_eq_take.mp (List.takeWhile_prefix _)).symm
  have hexpand := (F.takeWhile_expand (fun c hc => (hrun c hc).2) hend).1
  have hlength : ∀ t : List Char, stringFragmentLength quote t =
      if t.takeWhile (isInString quote) = [] then none
      else some (t.takeWhile (isInString quote)).length := by
    intro t
    change runOf (isInString quote) t = _
    unfold runOf
    cases t.takeWhile (isInString quote) <;> rfl
  rw [hlength, hlength, hexpand]
  cases hs : s.takeWhile (isInString quote) with
  | nil => rfl
  | cons c rest =>
    rw [hs] at htake hrun
    have hne : F.expand (c :: rest) ≠ [] := by
      rw [expand_cons]
      exact List.append_ne_nil_of_left_ne_nil (hrun c List.mem_cons_self).1 _
    rw [if_neg hne, if_neg (List.cons_ne_nil c rest), Option.map_some, htake]

end Filling

/-! ## Implied terminators -/

/-- The characters whose part in a statement the next character decides. -/
def isUndecided (c : Char) : Bool := c == '/' || c == '+' || c == '-' || c == '!' || c == 'i'

/-- Whether a template says whether a statement can go on with it. A word with `i` is told from the
operators `in` and `instanceof` by its second letter. -/
def goingOnIsKnown : List Char → Bool
  | [] => true
  | 'i' :: c :: _ => isOrdinary c && c != 'n'
  | c :: _ => isOrdinary c && !isUndecided c

/-- Whether a template says whether a terminator is implied before it. -/
def impliedIsKnown : List Char → Bool
  | [] => true
  | c :: rest =>
    match slotOf c with
    | none =>
      if c == '\x7d' then
        (rest.takeWhile isSpace).all isOrdinary && beginsKnown (rest.dropWhile isSpace)
      else if !isSpace c then true
      else if c == '\n' then
        (rest.takeWhile isSpace).all isOrdinary && goingOnIsKnown (rest.dropWhile isSpace)
      else impliedIsKnown rest
    | some (.word _) => true
    | some _ => false

namespace Filling

variable (F : Filling)

/-- White space without place holders ends alike in a template and in a text made from it. -/
lemma dropWhile_isSpace_expand {s : List Char} (hrun : (s.takeWhile isSpace).all isOrdinary)
    (hend : beginsKnown (s.dropWhile isSpace)) :
    (F.expand s).dropWhile isSpace = F.expand (s.dropWhile isSpace) := by
  refine (F.takeWhile_expand ?_ ?_).2
  · intro c hc d hd
    have hord := List.all_eq_true.mp hrun c hc
    rw [F.fill_ordinary (isOrdinary_iff.mp hord), List.mem_singleton] at hd
    rw [hd]
    exact List.all_eq_true.mp List.all_takeWhile c hc
  · intro c hc
    have hneg := List.head?_dropWhile_not isSpace s
    rw [hc] at hneg
    cases hd : s.dropWhile isSpace with
    | nil =>
      rw [hd] at hc
      cases hc
    | cons e more =>
      rw [hd] at hc hend
      cases hc
      rcases F.expand_cons_cases hend [] with ⟨hord, -⟩ | ⟨-, d, rest, -, hd, hfill⟩
      · exact ⟨c, [], F.fill_ordinary (isOrdinary_iff.mp hord), by simpa using hneg⟩
      · exact ⟨d, rest, hfill, isSpace_of_isNameStart hd⟩

/-- Before a text that begins with no comment there are no more spaces to skip. -/
lemma skipSpacesAndComments_eq {fuel : Nat} {s : List Char}
    (h : (s.dropWhile isSpace).head? ≠ some '/') :
    skipSpacesAndComments (fuel + 1) s = some (s.dropWhile isSpace) := by
  unfold skipSpacesAndComments
  dsimp only
  split
  · rename_i heq
    rw [heq] at h
    exact absurd rfl h
  · rename_i heq
    rw [heq] at h
    exact absurd rfl h
  · rename_i heq
    rw [heq] at h
    exact absurd rfl h
  · rfl

/-- Whether a statement can go on mostly depends on one character. -/
lemma cannotContinue_eq {place : Ending} {c : Char} (h : isUndecided c = false)
    (s t : List Char) : cannotContinue place (c :: s) = cannotContinue place (c :: t) := by
  simp only [isUndecided, Bool.or_eq_false_iff, beq_eq_false_iff_ne] at h
  obtain ⟨⟨⟨⟨h1, h2⟩, h3⟩, h4⟩, h5⟩ := h
  unfold cannotContinue
  simp [h2, h3, h4, h5]

/-- A statement cannot go on with a word that begins with `i` and another letter than `n`. -/
lemma cannotContinue_of_word {place : Ending} {c : Char} (hc : c ≠ 'n') (s : List Char) :
    cannotContinue place ('i' :: c :: s) = true := by
  have hother : beginsOtherWord ('i' :: c :: s) = true := by
    unfold beginsOtherWord
    split
    · rename_i heq
      cases heq
      exact absurd rfl hc
    · rfl
  unfold cannotContinue
  rw [hother]
  rfl

/-- Whether a statement can go on with a text, its template says; it begins with no comment. -/
lemma cannotContinue_expand (place : Ending) {s : List Char} (h : goingOnIsKnown s) :
    cannotContinue place (F.expand s) = cannotContinue place s ∧ beginsKnown s ∧
      s.head? ≠ some '/' ∧ (F.expand s).head? ≠ some '/' := by
  unfold goingOnIsKnown at h
  split at h
  · exact ⟨rfl, rfl, by simp, by simp⟩
  · rename_i c rest
    simp only [Bool.and_eq_true, bne_iff_ne] at h
    have hexpand : F.expand ('i' :: c :: rest) = 'i' :: c :: F.expand rest := by
      rw [expand_cons, expand_cons, F.fill_ordinary rfl, F.fill_ordinary (isOrdinary_iff.mp h.1)]
      rfl
    rw [hexpand, cannotContinue_of_word h.2, cannotContinue_of_word h.2]
    exact ⟨rfl, rfl, by simp, by simp⟩
  · rename_i c rest _
    simp only [Bool.and_eq_true, Bool.not_eq_true'] at h
    have hne : c ≠ '/' := by
      rintro rfl
      cases h.2
    rw [expand_cons, F.fill_ordinary (isOrdinary_iff.mp h.1)]
    exact ⟨cannotContinue_eq h.2 _ _, isWordy_of_isOrdinary h.1, by simpa using hne,
      by simpa using hne⟩

/-- A statement cannot go on after a line break where it cannot in the template. -/
lemma afterBreak_expand (place : Ending) {rest : List Char}
    (h : ((rest.takeWhile isSpace).all isOrdinary && goingOnIsKnown (rest.dropWhile isSpace)) =
      true) :
    (match skipSpacesAndComments ((F.expand rest).length + 1) (F.expand rest) with
      | none => false
      | some after => cannotContinue place after) =
      match skipSpacesAndComments (rest.length + 1) rest with
      | none => false
      | some after => cannotContinue place after := by
  obtain ⟨hrun, hend⟩ := (Bool.and_eq_true _ _).mp h
  obtain ⟨hcannot, hbegins, hslash, hslash'⟩ := F.cannotContinue_expand place hend
  have hdrop := F.dropWhile_isSpace_expand hrun hbegins
  rw [skipSpacesAndComments_eq (by rwa [hdrop]), skipSpacesAndComments_eq hslash, hdrop]
  exact hcannot

/-- A terminator is implied before a text where one is implied before its template. -/
lemma impliesTerminator_expand (place : Ending) {s : List Char} (h : impliedIsKnown s) :
    impliesTerminator place (F.expand s) = impliesTerminator place s := by
  induction s with
  | nil => rfl
  | cons c rest ih =>
    unfold impliedIsKnown at h
    split at h
    · rename_i hslot
      rw [expand_cons, F.fill_ordinary hslot, List.singleton_append]
      rw [impliesTerminator, impliesTerminator]
      cases hbrace : c == '\x7d' with
      | true =>
        rw [if_pos hbrace] at h
        obtain ⟨hrun, hend⟩ := (Bool.and_eq_true _ _).mp h
        rw [if_pos rfl, if_pos rfl, F.dropWhile_isSpace_expand hrun hend,
          F.head?_expand_beq hend (by decide)]
      | false =>
        cases hspace : isSpace c with
        | false => rfl
        | true =>
          cases hline : c == '\n' with
          | false =>
            simp only [hbrace, hspace, hline, Bool.not_true, Bool.false_eq_true, if_false] at h ⊢
            exact ih h
          | true =>
            simp only [hbrace, hspace, hline, Bool.not_true, Bool.false_eq_true, if_false,
              if_true] at h ⊢
            exact F.afterBreak_expand place h
    · rename_i hslot
      have hnot : ∀ d t, isNameStart d → impliesTerminator place (d :: t) = false := by
        intro d t hd
        rw [impliesTerminator, if_neg (by simpa using ne_of_isNameStart hd (by decide)),
          isSpace_of_isNameStart hd]
        rfl
      obtain ⟨d, more, hfill, hd, -⟩ := F.fill_word hslot
      rw [expand_cons, hfill, List.cons_append, hnot d _ hd, hnot c _ (isNameStart_of_slotOf hslot)]
    · cases h

end Filling

/-! ## What may come before a token -/

/-- Whether a template says which blanks it begins with. -/
def blanksAreKnown (s : List Char) : Bool := beginsKnown (s.dropWhile isSeparator)

/-- Whether a template says which comments it begins with, reading at most `fuel` of them. -/
def commentsAreKnown (fuel : Nat) (s : List Char) : Bool :=
  match fuel with
  | 0 => blanksAreKnown s
  | fuel + 1 =>
    blanksAreKnown s && commentIsKnown (blanks s).2 &&
      match commentLength (blanks s).2 with
      | none => true
      | some n => commentsAreKnown fuel ((blanks s).2.drop n)

/-- Whether a template says what comes before its first token. -/
def leadIsKnown : Lead → List Char → Bool
  | .nothing, _ => true
  | .blanks, s => blanksAreKnown s
  | .comments, s => commentsAreKnown s.length s

mutual

/-- The tree made from the tree of a template. -/
def Tree.fill (F : Filling) : Tree → Tree
  | .leaf f k gap text => .leaf f k (F.expand gap) (F.expand text)
  | .node f k cs => .node f k (fillAll F cs)

/-- The trees made from the trees of a template. -/
def Tree.fillAll (F : Filling) : List Tree → List Tree
  | [] => []
  | t :: ts => t.fill F :: fillAll F ts

end

namespace Tree

variable (F : Filling)

@[simp] lemma fill_leaf (f : Option Field) (k : Kind) (gap text : List Char) :
    (leaf f k gap text).fill F = .leaf f k (F.expand gap) (F.expand text) := by simp [fill]

lemma fillAll_eq_map (ts : List Tree) : fillAll F ts = ts.map (fill F) := by
  induction ts with
  | nil => simp [fillAll]
  | cons t ts ih => rw [fillAll, ih, List.map_cons]

@[simp] lemma fill_node (f : Option Field) (k : Kind) (cs : List Tree) :
    (node f k cs).fill F = .node f k (cs.map (fill F)) := by rw [fill, fillAll_eq_map]

@[simp] lemma kind_fill (t : Tree) : (t.fill F).kind = t.kind := by
  cases t <;> simp [kind]

@[simp] lemma field_fill (t : Tree) : (t.fill F).field = t.field := by
  cases t <;> simp [field]

@[simp] lemma children_fill (t : Tree) : (t.fill F).children = t.children.map (fill F) := by
  cases t <;> simp [children]

lemma withField_fill (f : Field) (t : Tree) : (t.fill F).withField f = (t.withField f).fill F := by
  cases t <;> simp [withField]

end Tree

namespace Filling

variable (F : Filling)

/-- A text begins with the blanks that its template begins with. -/
lemma blanks_expand {s : List Char} (h : blanksAreKnown s) :
    blanks (F.expand s) = (F.expand (blanks s).1, F.expand (blanks s).2) := by
  have hkey := F.takeWhile_expand (p := isSeparator) (s := s) ?_ ?_
  · exact Prod.ext hkey.1 hkey.2
  · intro c hc d hd
    have hsep : isSeparator c := List.all_eq_true.mp List.all_takeWhile c hc
    rcases slotOf_of_isSeparator hsep with hslot | hslot
    · rw [F.fill_ordinary hslot, List.mem_singleton] at hd
      rwa [hd]
    · exact F.admits_fill hslot d hd
  · intro c hc
    have hneg := List.head?_dropWhile_not isSeparator s
    rw [hc] at hneg
    unfold blanksAreKnown at h
    cases hd : s.dropWhile isSeparator with
    | nil =>
      rw [hd] at hc
      cases hc
    | cons e more =>
      rw [hd] at hc h
      cases hc
      rcases F.expand_cons_cases h [] with ⟨hord, -⟩ | ⟨-, d, rest, -, hd, hfill⟩
      · exact ⟨c, [], F.fill_ordinary (isOrdinary_iff.mp hord), by simpa using hneg⟩
      · exact ⟨d, rest, hfill, isSeparator_of_isNameStart hd⟩

/-- What is read before a token, and the text after it, made from a template. -/
def lead (r : List Tree × List Char × List Char) : List Tree × List Char × List Char :=
  (r.1.map (Tree.fill F), F.expand r.2.1, F.expand r.2.2)

/-- A text begins with the comments that its template begins with. -/
lemma commentsUpTo_expand {fuel : Nat} {s : List Char} (h : commentsAreKnown fuel s)
    (hfuel : s.length ≤ fuel) {most : Nat} (hmost : (F.expand s).length ≤ most) :
    commentsUpTo most (F.expand s) = F.lead (commentsUpTo fuel s) := by
  induction fuel generalizing s most with
  | zero =>
    rw [List.length_eq_zero_iff.mp (Nat.le_zero.mp hfuel)]
    cases most <;> rfl
  | succ fuel ih =>
    unfold commentsAreKnown at h
    simp only [Bool.and_eq_true] at h
    obtain ⟨⟨hblanks, hcomment⟩, hmore⟩ := h
    have hb := F.blanks_expand hblanks
    have hlength := F.commentLength_expand hcomment
    unfold commentsUpTo
    cases hc : commentLength (blanks s).2 with
    | none =>
      rw [hc, Option.map_none] at hlength
      cases most with
      | zero => simp [hb, hc, lead]
      | succ most => simp [hb, hc, hlength, lead]
    | some n =>
      rw [hc, Option.map_some] at hlength
      rw [hc] at hmore
      -- a comment has characters, so that less text is left after it
      have hleft : ∀ t : List Char, ∀ n, commentLength (blanks t).2 = some n →
          ((blanks t).2.drop n).length < t.length := by
        intro t n hn
        have happend := congrArg List.length (blanks_append t)
        have hpos := commentLength_pos hn
        have hne : (blanks t).2 ≠ [] := by
          intro h0
          rw [h0] at hn
          cases hn
        have := List.length_pos_iff.mpr hne
        rw [List.length_append] at happend
        rw [List.length_drop]
        omega
      have hdrop : (F.expand (blanks s).2).drop (F.expand ((blanks s).2.take n)).length =
          F.expand ((blanks s).2.drop n) := F.drop_expand n _
      have hleftText := hleft s n hc
      have hleftMade : (F.expand ((blanks s).2.drop n)).length < (F.expand s).length := by
        have := hleft (F.expand s) _ (by rw [hb]; exact hlength)
        rwa [hb, hdrop] at this
      obtain ⟨most, rfl⟩ : ∃ m, most = m + 1 := ⟨most - 1, by omega⟩
      have hrest : commentsUpTo most (F.expand ((blanks s).2.drop n)) = _ :=
        ih hmore (by omega) (by omega)
      simp [hb, hc, hlength, hdrop, hrest, lead, F.take_expand]

/-- A text begins with the same blanks and comments as its template. -/
lemma skipLead_expand {kind : Lead} {s : List Char} (h : leadIsKnown kind s) :
    skipLead kind (F.expand s) = F.lead (skipLead kind s) := by
  cases kind with
  | nothing => rfl
  | blanks => exact Prod.ext rfl (F.blanks_expand h)
  | comments => exact F.commentsUpTo_expand h (Nat.le_refl _) (Nat.le_refl _)

end Filling

/-! ## Scanners and tests -/

/-- Whether a template says enough to a scanner. Only those scanners are told anything that
occur where overrides are read. -/
def Scanner.isKnown : Scanner → List Char → Bool
  | keyword w, s => wordsAreKnown [w] s
  | word, s => wordIsKnown s
  | nameExcept words, s | nameAmong words, s => wordsAreKnown words s
  | privateName, s | hashBang, s => beginsUnlike (· == '#') s
  | mark m, s => markIsKnown m.toList s
  | operator _, s | operatorAmong _, s => operatorIsKnown s
  | number, s => numberIsKnown s
  | comment, s => commentIsKnown s
  | stringFragment quote, s => stringFragmentIsKnown quote s
  | escape, s => beginsUnlike (· == '\\') s
  | implied _, s => impliedIsKnown s
  | finish, s => beginsKnown s
  | _, _ => false

/-- Whether a template says enough to a test. -/
def Test.isKnown : Test → List Char → Bool
  | goesOn place, s =>
    impliedIsKnown s && (impliesTerminator place s ||
      (blanksAreKnown s && beginsUnlike (· == '/') (blanks s).2))
  | _, _ => false

namespace Filling

variable (F : Filling)

/-- A text does not begin with a mark that no word begins with if its template does not. -/
lemma head?_expand_ne {d : Char} (hd : isNameStart d = false) {s : List Char}
    (h : beginsUnlike (· == d) s) : s.head? ≠ some d ∧ (F.expand s).head? ≠ some d := by
  have hname : ∀ c, isNameStart c → (c == d) = false := fun c hc =>
    beq_eq_false_iff_ne.mpr (ne_of_isNameStart hc hd)
  constructor
  · exact fun h0 => absurd (head?_of_unlike h d h0) (by simp)
  · exact fun h0 => absurd (F.head?_expand_of_unlike hname h d h0) (by simp)

/-- A text begins with a keyword where its template does. -/
lemma keyword_expand {w : String} {s : List Char} (h : wordsAreKnown [w] s) :
    keyword w (F.expand s) = (keyword w s).map fun n => (F.expand (s.take n)).length := by
  have hlength := F.wordLength_expand ((Bool.and_eq_true _ _).mp h).1
  unfold keyword
  cases hn : wordLength s with
  | none =>
    rw [hn, Option.map_none] at hlength
    have hs : wordAt s = [] := by rw [wordAt, hn]; rfl
    have ht : wordAt (F.expand s) = [] := by rw [wordAt, hlength]; rfl
    rw [hs, ht]
    by_cases hw : w.toList = []
    · have hzero : w.length = 0 := by
        rw [← String.length_toList, hw]
        rfl
      rw [if_pos (beq_iff_eq.mpr hw.symm), Option.map_some, hzero]
      rfl
    · rw [if_neg (by simpa using Ne.symm hw)]
      rfl
  | some n =>
    rw [hn, Option.map_some] at hlength
    have hs : wordAt s = s.take n := by rw [wordAt, hn]; rfl
    have ht : wordAt (F.expand s) = F.expand (s.take n) := by
      rw [wordAt, hlength, Option.getD_some, F.take_expand]
    rw [hs, ht]
    have hbeq := F.word_expand_beq h List.mem_cons_self hn
    by_cases hw : w.toList = s.take n
    · have hmade : w.toList = F.expand (s.take n) := by
        rwa [← beq_iff_eq, hbeq, beq_iff_eq]
      have htake : s.take w.length = s.take n := by
        rw [← String.length_toList, hw]
        exact (List.prefix_iff_eq_take.mp (List.take_prefix n s)).symm
      rw [if_pos (beq_iff_eq.mpr hmade.symm), if_pos (beq_iff_eq.mpr hw.symm), Option.map_some,
        htake, ← hmade, String.length_toList]
    · have hmade : w.toList ≠ F.expand (s.take n) := by
        rwa [ne_eq, ← beq_iff_eq, hbeq, beq_iff_eq]
      rw [if_neg (by simpa using Ne.symm hmade), if_neg (by simpa using Ne.symm hw)]
      rfl

/-- A word of a text is among some words where its template says so. -/
lemma any_word_expand {words : List String} {s : List Char} (h : wordsAreKnown words s) {n : Nat}
    (hn : wordLength s = some n) :
    (words.any fun w => w.toList == F.expand (s.take n)) =
      words.any fun w => w.toList == s.take n := by
  rw [Bool.eq_iff_iff, List.any_eq_true, List.any_eq_true]
  refine exists_congr fun w => and_congr_right fun hw => ?_
  rw [F.word_expand_beq h hw hn]

/-- A choice of words is made alike in a text and in its template. -/
lemma filter_wordLength_expand {words : List String} {s : List Char} (h : wordsAreKnown words s)
    {p : List Char → Bool} (hp : ∀ n, wordLength s = some n → p (F.expand (s.take n)) = p (s.take n)) :
    ((wordLength (F.expand s)).filter fun n => p ((F.expand s).take n)) =
      ((wordLength s).filter fun n => p (s.take n)).map fun n => (F.expand (s.take n)).length := by
  rw [F.wordLength_expand ((Bool.and_eq_true _ _).mp h).1]
  cases hn : wordLength s with
  | none => rfl
  | some n =>
    rw [Option.map_some, Option.filter_some, Option.filter_some, F.take_expand, hp n hn]
    split <;> rfl

/-- **Scanners.** What a scanner finds in a text is made from what it finds in the template. -/
theorem length_expand {scan : Scanner} {s : List Char} (h : scan.isKnown s) :
    scan.length (F.expand s) =
      (scan.length s).map fun n => (F.expand (s.take n)).length := by
  -- scanners that find nothing in either
  have hnone : ∀ {scan : Scanner}, scan.length s = none → scan.length (F.expand s) = none →
      scan.length (F.expand s) = (scan.length s).map fun n => (F.expand (s.take n)).length := by
    intro scan hs ht
    rw [hs, ht]
    rfl
  cases scan with
  | keyword w => exact F.keyword_expand h
  | word => exact F.wordLength_expand h
  | nameExcept words =>
    refine F.filter_wordLength_expand (p := fun t => !(words.any fun w => w.toList == t)) h ?_
    intro n hn
    rw [F.any_word_expand h hn]
  | nameAmong words =>
    refine F.filter_wordLength_expand (p := fun t => words.any fun w => w.toList == t) h ?_
    exact fun n hn => F.any_word_expand h hn
  | privateName =>
    obtain ⟨hs, ht⟩ := F.head?_expand_ne (by decide) h
    have hkey : ∀ t : List Char, t.head? ≠ some '#' → privateNameLength t = none := by
      intro t ht
      unfold privateNameLength
      split
      · exact absurd rfl ht
      · rfl
    exact hnone (hkey _ hs) (hkey _ ht)
  | mark m => exact F.mark_expand h
  | operator o =>
    simp only [Scanner.length, operator]
    rw [F.operatorAt_expand h]
    split
    · rename_i ho
      have ho := beq_iff_eq.mp ho
      rw [Option.map_some, F.length_expand_operator ho ((Bool.and_eq_true _ _).mp h).1]
    · rfl
  | operatorAmong os =>
    simp only [Scanner.length, operatorAmong]
    rw [F.operatorAt_expand h]
    cases ho : operatorAt s with
    | none => rfl
    | some o =>
      simp only [Option.bind_some]
      split
      · rw [Option.map_some, F.length_expand_operator ho ((Bool.and_eq_true _ _).mp h).1]
      · rfl
  | number => exact hnone (F.numberLength_expand h).1 (F.numberLength_expand h).2
  | comment => exact F.commentLength_expand h
  | stringFragment quote => exact F.stringFragmentLength_expand h
  | escape =>
    obtain ⟨hs, ht⟩ := F.head?_expand_ne (by decide) h
    have hkey : ∀ t : List Char, t.head? ≠ some '\\' → escapeLength t = none := by
      intro t ht
      unfold escapeLength
      split
      all_goals first | rfl | exact absurd rfl ht
    exact hnone (hkey _ hs) (hkey _ ht)
  | implied place =>
    simp only [Scanner.length]
    rw [F.impliesTerminator_expand place h]
    split
    · simp
    · rfl
  | hashBang =>
    obtain ⟨hs, ht⟩ := F.head?_expand_ne (by decide) h
    have hkey : ∀ t : List Char, t.head? ≠ some '#' → Scanner.hashBang.length t = none := by
      intro t ht
      simp only [Scanner.length]
      rw [if_neg]
      intro hfront
      obtain ⟨rest, rfl⟩ := List.isPrefixOf_iff_prefix.mp hfront
      exact ht rfl
    exact hnone (hkey _ hs) (hkey _ ht)
  | finish =>
    simp only [Scanner.length]
    rw [F.isEmpty_expand h]
    split
    · simp
    · rfl
  | _ => cases h

/-- **Tests.** A text passes the tests that its template passes. -/
theorem holds_expand {test : Test} {s : List Char} (h : test.isKnown s) :
    test.holds (F.expand s) = test.holds s := by
  cases test with
  | goesOn place =>
    obtain ⟨himplied, hmore⟩ := (Bool.and_eq_true _ _).mp h
    -- without a comment, the place itself decides
    have hkey : ∀ t : List Char, (impliesTerminator place t = true ∨
        commentLength (blanks t).2 = none) → endsHere place t = impliesTerminator place t := by
      intro t ht
      unfold endsHere
      cases t with
      | nil => rfl
      | cons c rest =>
        rw [List.length_cons, impliesTerminatorSoon]
        rcases ht with ht | ht
        · rw [ht, Bool.true_or]
        · simp only [ht]
          exact Bool.or_false _
    have hexpand := F.impliesTerminator_expand place himplied
    have hplain : ∀ t : List Char, t.head? ≠ some '/' → commentLength t = none := by
      intro t ht
      unfold commentLength
      split
      all_goals first | rfl | exact absurd rfl ht
    simp only [Test.holds]
    rcases (Bool.or_eq_true _ _).mp hmore with hends | hmore
    · rw [hkey s (Or.inl hends), hkey (F.expand s) (Or.inl (hexpand.trans hends)), hexpand]
    · obtain ⟨hblanks, hslash⟩ := (Bool.and_eq_true _ _).mp hmore
      obtain ⟨hs, ht⟩ := F.head?_expand_ne (by decide) hslash
      have hmade : commentLength (blanks (F.expand s)).2 = none := by
        rw [F.blanks_expand hblanks]
        exact hplain _ ht
      rw [hkey s (Or.inr (hplain _ hs)), hkey (F.expand s) (Or.inr hmade), hexpand]
  | endsOperand => cases h
  | beginsValue => cases h

/-- **Tokens.** A text begins with the token made from the one that its template begins with. -/
theorem readToken_expand {lead : Lead} {kind : Kind} {scan : Scanner} {s : List Char}
    (hlead : leadIsKnown lead s) (hscan : scan.isKnown (skipLead lead s).2.2) :
    readToken lead kind scan (F.expand s) =
      (readToken lead kind scan s).map fun (trees, t) => (trees.map (Tree.fill F), F.expand t) := by
  unfold readToken
  rw [F.skipLead_expand hlead]
  simp only [Filling.lead, F.length_expand hscan]
  cases scan.length (skipLead lead s).2.2 with
  | none => rfl
  | some n => simp [F.take_expand, F.drop_expand]

end Filling

end ThemeOverride.Script
