import ThemeOverride.Proofs.Console.Markup

/-!
# Texts that are printed as they are

Texts from outside are printed inside of lines with markup, and nothing in them is written otherwise for
that. So a text that holds a tag, a backslash before an opening bracket, or a character that is not shown
is printed as something shorter. Every other text is printed as it is.

## Main definitions

* `ThemeOverride.Console.Verbatim` — nothing in a text is taken for markup.
* `ThemeOverride.Console.IsPlain` — a text that every console prints as it is.
* `ThemeOverride.Console.Reads` — how the pieces of a text follow from its characters.
* `ThemeOverride.Console.Line` — a line with a text from outside, as it is written and as it is meant.
* `ThemeOverride.Console.numberedLines` — the lines of the options of a question.

## Main results

* `ThemeOverride.Console.reads_markupPieces` — the pieces that are found follow from the characters.
* `ThemeOverride.Console.Line.plainText_eq`, `ThemeOverride.Console.Line.length_le` — what is shown of a
  line.
* `ThemeOverride.Console.printLines_eq_iff`,
  `ThemeOverride.Console.printLines_questionLines_eq_iff` — lines are printed as they are meant exactly
  if nothing in their texts is taken for markup.
-/

namespace ThemeOverride.Console

/-! ## Texts without markup -/

/-- A text begins with a tag, up to its closing bracket; the opening bracket stands before the text. -/
def BeginsTag (s : List Char) : Prop :=
  ∃ c inside, beginsTag c = true ∧ (∀ d ∈ inside, isInside d = true) ∧ c :: (inside ++ [']']) <+: s

/-- **Nothing in a text is taken for markup**: it holds no tag, no backslash before an opening bracket, and
no character that is not shown. -/
structure Verbatim (s : List Char) : Prop where
  noTag : ∀ behind, '[' :: behind <:+ s → ¬ BeginsTag behind
  noSlash : ∀ behind, ¬ '\\' :: '[' :: behind <:+ s
  allShown : ∀ c ∈ s, isShown c = true

/-- **A text that every console prints as it is**: nothing in it is taken for markup, nothing between two
of its colons is a name, for which a console may show a picture, and it holds no tab, which a console may
widen. -/
structure IsPlain (s : String) : Prop where
  verbatim : Verbatim s.toList
  noName : ∀ name, ' ' ∉ name → ¬ ':' :: (name ++ [':']) <:+: s.toList
  noTab : '\t' ∉ s.toList

section

variable {s : List Char} {c : Char}

/-- Without an opening bracket there is no markup. -/
lemma Verbatim.of_notMem (hbracket : '[' ∉ s) (hshown : ∀ c ∈ s, isShown c = true) : Verbatim s where
  noTag _ h := absurd (h.subset List.mem_cons_self) hbracket
  noSlash _ h := hbracket (h.subset (List.mem_cons_of_mem _ List.mem_cons_self))
  allShown := hshown

lemma Verbatim.nil : Verbatim [] := .of_notMem (by simp) (by simp)

lemma IsPlain.of_notMem {text : String} (hbracket : '[' ∉ text.toList) (hcolon : ':' ∉ text.toList)
    (htab : '\t' ∉ text.toList) (hshown : text.toList.all isShown = true) : IsPlain text where
  verbatim := .of_notMem hbracket (List.all_eq_true.mp hshown)
  noName _ _ h := hcolon (h.subset List.mem_cons_self)
  noTab := htab

lemma Verbatim.of_suffix {t : List Char} (h : Verbatim s) (ht : t <:+ s) : Verbatim t where
  noTag behind hb := h.noTag behind (hb.trans ht)
  noSlash behind hb := h.noSlash behind (hb.trans ht)
  allShown c hc := h.allShown c (ht.subset hc)

/-- **Whether something is taken for markup, by the first character.** -/
lemma verbatim_cons : Verbatim (c :: s) ↔ isShown c = true ∧ (c = '[' → ¬ BeginsTag s) ∧
    (c = '\\' → ∀ behind, s ≠ '[' :: behind) ∧ Verbatim s := by
  constructor
  · intro h
    refine ⟨h.allShown c List.mem_cons_self, ?_, ?_, h.of_suffix (List.suffix_cons c s)⟩
    · rintro rfl
      exact h.noTag s (List.suffix_refl _)
    · rintro rfl behind rfl
      exact h.noSlash behind (List.suffix_refl _)
  · rintro ⟨hshown, hbracket, hslash, h⟩
    refine ⟨fun behind hb => ?_, fun behind hb => ?_, List.forall_mem_cons.mpr ⟨hshown, h.allShown⟩⟩
    · rcases List.suffix_cons_iff.mp hb with heq | hb
      · obtain ⟨rfl, rfl⟩ := List.cons.inj heq
        exact hbracket rfl
      · exact h.noTag behind hb
    · rcases List.suffix_cons_iff.mp hb with heq | hb
      · obtain ⟨rfl, rfl⟩ := List.cons.inj heq
        exact hslash rfl behind rfl
      · exact h.noSlash behind hb

/-- Backslashes are not taken for markup but before an opening bracket. -/
lemma verbatim_slashes (hs : ∀ behind, s ≠ '[' :: behind) (h : Verbatim s) (n : Nat) :
    Verbatim (List.replicate n '\\' ++ s) := by
  induction n with
  | zero => exact h
  | succ n ih =>
    refine verbatim_cons.mpr ⟨rfl, fun hc => absurd hc (by decide), fun _ behind heq => ?_, ih⟩
    cases n with
    | zero => exact hs behind heq
    | succ n => cases heq

lemma isInside_of_beginsTag (h : beginsTag c = true) : isInside c = true := by
  rw [isInside, Bool.and_eq_true, bne_iff_ne, bne_iff_ne]
  constructor <;> rintro rfl <;> exact absurd h (by decide)

/-- What is found as a tag begins the text and is closed there. -/
lemma eq_append_of_tagAt? {inside after : List Char} (h : tagAt? s = some (inside, after)) :
    s = inside ++ ']' :: after ∧ BeginsTag s := by
  obtain ⟨rest, hrest⟩ := List.takeWhile_prefix isInside (l := s)
  have hdrop : (s.takeWhile isInside ++ rest).drop (s.takeWhile isInside).length = rest := List.drop_left
  rw [hrest] at hdrop
  cases s with
  | nil => cases h
  | cons c s =>
    change (if !beginsTag c then none else tagBefore? ((c :: s).takeWhile isInside)
      ((c :: s).drop ((c :: s).takeWhile isInside).length)) = _ at h
    rw [hdrop] at h
    split at h
    · cases h
    · rename_i hbegins
      have hbegins : beginsTag c = true := by simpa using hbegins
      unfold tagBefore? at h
      split at h
      · cases h
        refine ⟨hrest.symm, c, s.takeWhile isInside, hbegins, fun d hd => ?_, ?_⟩
        · exact List.all_eq_true.mp (List.all_takeWhile (p := isInside) (l := s)) d hd
        · rw [List.takeWhile_cons_of_pos (isInside_of_beginsTag hbegins)] at hrest
          exact ⟨after, by rw [← hrest]; simp⟩
      · cases h

lemma tagAt?_eq_none_iff : tagAt? s = none ↔ ¬ BeginsTag s := by
  constructor
  · rintro h ⟨c, inside, hc, hinside, after, rfl⟩
    rw [List.cons_append, List.append_assoc, tagAt?_cons hc hinside
      (fun d rest hd => by rw [← (List.cons.inj hd).1]; rfl)] at h
    cases h
  · intro h
    cases htag : tagAt? s with
    | none => rfl
    | some found => exact absurd (eq_append_of_tagAt? htag).2 h

end

/-! ## Pieces -/

/-- **How the pieces of a text follow from its characters.** Brackets and what is not shown may stand
behind backslashes; half of these are shown in front of a tag, and one more of them makes the tag a
text. -/
inductive Reads : List Char → List Piece → Prop
  | nil : Reads [] []
  | character {c : Char} {s : List Char} {ps : List Piece} (hc : c ≠ '\\') (hb : c ≠ '[')
      (h : Reads s ps) : Reads (c :: s) (.shown [c] :: ps)
  | slashes {n : Nat} {s : List Char} {ps : List Piece} (hn : 0 < n)
      (hs : ∀ behind, s ≠ '\\' :: behind ∧ s ≠ '[' :: behind) (h : Reads s ps) :
      Reads (List.replicate n '\\' ++ s) (.shown (List.replicate n '\\') :: ps)
  | bracket {n : Nat} {s : List Char} {ps : List Piece} (htag : ¬ BeginsTag s) (h : Reads s ps) :
      Reads (List.replicate n '\\' ++ '[' :: s)
        (.shown ((List.replicate n '\\').dropLast ++ ['[']) :: ps)
  | escaped {n : Nat} {inside s : List Char} {ps : List Piece} (hn : n % 2 = 1)
      (htag : BeginsTag (inside ++ ']' :: s)) (h : Reads s ps) :
      Reads (List.replicate n '\\' ++ '[' :: (inside ++ ']' :: s))
        (.shown (List.replicate (n / 2) '\\') :: .shown ('[' :: inside ++ [']']) :: ps)
  | tag {n : Nat} {inside s : List Char} {ps : List Piece} (htag : BeginsTag (inside ++ ']' :: s))
      (h : Reads s ps) : Reads (List.replicate n '\\' ++ '[' :: (inside ++ ']' :: s))
        (.shown (List.replicate (n / 2) '\\') :: .tag inside :: ps)

/-- **The pieces that are found follow from the characters**, if enough of them are read. -/
theorem reads_markupPieces {fuel : Nat} {s : List Char} (h : s.length < fuel) :
    Reads s (markupPieces fuel s) := by
  induction fuel generalizing s with
  | zero => omega
  | succ fuel ih =>
    obtain ⟨n, u, rfl, hu⟩ := exists_slashes s
    rw [List.length_append, List.length_replicate] at h
    cases u with
    | nil =>
      cases n with
      | zero => exact .nil
      | succ n =>
        rw [markupPieces_slashes n.succ_pos (by simp), markupPieces_nil]
        exact .slashes n.succ_pos (by simp) .nil
    | cons c s =>
      rw [List.length_cons] at h
      by_cases hc : c = '['
      · subst hc
        rw [markupPieces_bracket]
        cases htag : tagAt? s with
        | none => exact .bracket (tagAt?_eq_none_iff.mp htag) (ih (by omega))
        | some found =>
          obtain ⟨inside, after⟩ := found
          obtain ⟨rfl, hbegins⟩ := eq_append_of_tagAt? htag
          rw [List.length_append, List.length_cons] at h
          dsimp only
          split
          · rename_i hodd
            exact .escaped (by simpa using hodd) hbegins (ih (by omega))
          · exact .tag hbegins (ih (by omega))
      · cases n with
        | zero =>
          rw [List.replicate_zero, List.nil_append, markupPieces_cons (fun h => hu s (by rw [h])) hc]
          exact .character (fun h => hu s (by rw [h])) hc (ih (by omega))
        | succ n =>
          have hother : ∀ behind, c :: s ≠ '\\' :: behind ∧ c :: s ≠ '[' :: behind :=
            fun behind => ⟨hu behind, fun h => hc (List.cons.inj h).1⟩
          rw [markupPieces_slashes n.succ_pos hother]
          exact .slashes n.succ_pos hother (ih (by rw [List.length_cons]; omega))

lemma exists_of_showPieces_shown {opened : List (List Char)} {s shown : List Char} {ps : List Piece}
    (h : showPieces opened (.shown s :: ps) = .ok shown) :
    ∃ rest, showPieces opened ps = .ok rest ∧ shown = s.filter isShown ++ rest := by
  rw [showPieces_shown] at h
  cases hps : showPieces opened ps with
  | error fault =>
    rw [hps] at h
    cases h
  | ok rest =>
    rw [hps] at h
    cases h
    exact ⟨rest, rfl, rfl⟩

/-- A tag shows nothing itself. -/
lemma exists_of_showPieces_tag {opened : List (List Char)} {inside shown : List Char} {ps : List Piece}
    (h : showPieces opened (.tag inside :: ps) = .ok shown) :
    ∃ below, showPieces below ps = .ok shown := by
  cases inside with
  | nil => exact ⟨_, h⟩
  | cons c inside =>
    by_cases hc : c = '/'
    · subst hc
      cases opened with
      | nil =>
        simp only [showPieces] at h
        split at h
        · cases h
        · rw [if_neg (by simp)] at h
          cases h
      | cons top below =>
        rw [showPieces_slash] at h
        split at h
        · exact ⟨below, h⟩
        · split at h
          · exact ⟨_, h⟩
          · cases h
    · rw [showPieces_tag fun _ heq => hc (List.cons.inj heq).1] at h
      exact ⟨_, h⟩

namespace Reads

variable {s shown : List Char} {ps : List Piece} {opened : List (List Char)}

/-- **A text in which nothing is taken for markup is shown as it is.** -/
theorem showPieces_eq (h : Reads s ps) (hs : Verbatim s) : showPieces opened ps = .ok s := by
  induction h with
  | nil => rfl
  | @character c s ps hc hb h ih =>
    obtain ⟨hshown, -, -, hs⟩ := verbatim_cons.mp hs
    rw [showPieces_shown, ih hs]
    simp [Except.map, hshown]
  | @slashes n s ps hn hother h ih =>
    have hslash : isShown '\\' = true := by decide
    rw [showPieces_shown, ih (hs.of_suffix (List.suffix_append _ _))]
    simp [Except.map, hslash]
  | @bracket n s ps htag h ih =>
    have hrest := ih (hs.of_suffix ((List.suffix_cons '[' s).trans (List.suffix_append _ _)))
    cases n with
    | zero =>
      have hbracket : isShown '[' = true := by decide
      rw [showPieces_shown, hrest]
      simp [Except.map, hbracket]
    | succ n =>
      -- the last backslash stands before the bracket
      rw [List.replicate_succ', List.append_assoc] at hs
      exact absurd (List.suffix_append _ _) (hs.noSlash s)
  | escaped hn htag h ih => exact absurd htag (hs.noTag _ (List.suffix_append _ _))
  | tag htag h ih => exact absurd htag (hs.noTag _ (List.suffix_append _ _))

/-- **No more is shown than there is, and less where something is taken for markup.** -/
theorem length_le (h : Reads s ps) (hshown : showPieces opened ps = .ok shown) :
    shown.length ≤ s.length ∧ (¬ Verbatim s → shown.length < s.length) := by
  induction h generalizing opened shown with
  | nil =>
    cases hshown
    exact ⟨Nat.le_refl _, fun hno => absurd .nil hno⟩
  | @character c s ps hc hb h ih =>
    obtain ⟨rest, hrest, rfl⟩ := exists_of_showPieces_shown hshown
    obtain ⟨hle, hlt⟩ := ih hrest
    rw [List.length_append, List.length_cons]
    cases hcase : isShown c with
    | false =>
      have hnone : [c].filter isShown = [] := by simp [hcase]
      rw [hnone, List.length_nil]
      exact ⟨by omega, fun _ => by omega⟩
    | true =>
      have hone : [c].filter isShown = [c] := by simp [hcase]
      rw [hone, List.length_singleton]
      refine ⟨by omega, fun hno => ?_⟩
      have hsno : ¬ Verbatim s := fun hs =>
        hno (verbatim_cons.mpr ⟨hcase, fun h => absurd h hb, fun h => absurd h hc, hs⟩)
      have hless := hlt hsno
      omega
  | @slashes n s ps hn hother h ih =>
    obtain ⟨rest, hrest, rfl⟩ := exists_of_showPieces_shown hshown
    obtain ⟨hle, hlt⟩ := ih hrest
    have hmost := List.length_filter_le isShown (List.replicate n '\\')
    rw [List.length_append, List.length_append]
    refine ⟨by omega, fun hno => ?_⟩
    have hless := hlt fun hs => hno (verbatim_slashes (fun behind => (hother behind).2) hs n)
    omega
  | @bracket n s ps htag h ih =>
    obtain ⟨rest, hrest, rfl⟩ := exists_of_showPieces_shown hshown
    obtain ⟨hle, hlt⟩ := ih hrest
    have hmost := List.length_filter_le isShown ((List.replicate n '\\').dropLast ++ ['['])
    simp only [List.length_append, List.length_dropLast, List.length_replicate, List.length_cons,
      List.length_nil] at hmost ⊢
    refine ⟨by omega, fun hno => ?_⟩
    cases n with
    | zero =>
      have hsno : ¬ Verbatim s := fun hs =>
        hno (verbatim_cons.mpr ⟨rfl, fun _ => htag, fun h => absurd h (by decide), hs⟩)
      have hless := hlt hsno
      omega
    | succ n => omega
  | @escaped n inside s ps hn htag h ih =>
    obtain ⟨more, hmore, rfl⟩ := exists_of_showPieces_shown hshown
    obtain ⟨rest, hrest, rfl⟩ := exists_of_showPieces_shown hmore
    obtain ⟨hle, -⟩ := ih hrest
    have hmost := List.length_filter_le isShown (List.replicate (n / 2) '\\')
    have hmost' := List.length_filter_le isShown ('[' :: inside ++ [']'])
    simp only [List.length_append, List.length_replicate, List.length_cons, List.length_nil]
      at hmost hmost' ⊢
    exact ⟨by omega, fun _ => by omega⟩
  | @tag n inside s ps htag h ih =>
    obtain ⟨rest, hrest, rfl⟩ := exists_of_showPieces_shown hshown
    obtain ⟨below, hrest⟩ := exists_of_showPieces_tag hrest
    obtain ⟨hle, -⟩ := ih hrest
    have hmost := List.length_filter_le isShown (List.replicate (n / 2) '\\')
    simp only [List.length_append, List.length_replicate, List.length_cons] at hmost ⊢
    exact ⟨by omega, fun _ => by omega⟩

end Reads

/-! ## Lines -/

/-- **A line with a text from outside**: what is written before the text, and what is meant to be shown of
that. -/
structure Line where
  written : String
  shown : String
  text : String
  prints : Prints written.toList shown.toList

namespace Line

variable {line : Line} {printed : String}

/-- A line as it is written. -/
def raw (line : Line) : String := line.written ++ line.text

/-- A line as it is meant. -/
def meant (line : Line) : String := line.shown ++ line.text

/-- A line is shown as it is meant, if nothing in its text is taken for markup. -/
lemma plainText_eq (h : Verbatim line.text.toList) : plainText line.raw = .ok line.meant := by
  obtain ⟨fuel, hfuel, heq⟩ := line.prints.plainText_eq line.text
  unfold raw
  rw [heq, (reads_markupPieces hfuel).showPieces_eq h]
  simp [Except.map, meant]

/-- No more is shown of a line than is meant, and less where something in its text is taken for markup. -/
lemma length_le (h : plainText line.raw = .ok printed) : printed.length ≤ line.meant.length ∧
    (¬ Verbatim line.text.toList → printed.length < line.meant.length) := by
  obtain ⟨fuel, hfuel, heq⟩ := line.prints.plainText_eq line.text
  unfold raw at h
  rw [heq] at h
  cases hshown : showPieces [] (markupPieces fuel line.text.toList) with
  | error fault =>
    rw [hshown] at h
    cases h
  | ok text =>
    rw [hshown] at h
    cases h
    obtain ⟨hle, hlt⟩ := (reads_markupPieces hfuel).length_le hshown
    simp only [meant, ← String.length_toList, String.toList_ofList, String.toList_append,
      List.length_append]
    exact ⟨by omega, fun hno => by have hless := hlt hno; omega⟩

end Line

/-- Texts on lines of their own. -/
def onLines : List String → String
  | [] => ""
  | text :: rest => text ++ "\n" ++ onLines rest

section

variable {lines : List Line}

/-- **Lines are printed as they are meant**, if nothing in their texts is taken for markup. -/
lemma printLines_eq (h : ∀ line ∈ lines, Verbatim line.text.toList) (session : Session) :
    printLines session (lines.map Line.raw) = (session.write (onLines (lines.map Line.meant)), none) := by
  induction lines generalizing session with
  | nil => simp [printLines, onLines, Session.write]
  | cons line rest ih =>
    obtain ⟨hline, hrest⟩ := List.forall_mem_cons.mp h
    rw [List.map_cons, printLines, Line.plainText_eq hline]
    dsimp only
    rw [ih hrest]
    simp [Session.write, onLines, String.append_assoc]

lemma length_printLines_le (session : Session) (lines : List Line) :
    (printLines session (lines.map Line.raw)).1.printed.length ≤
      session.printed.length + (onLines (lines.map Line.meant)).length := by
  induction lines generalizing session with
  | nil => simp [printLines]
  | cons line rest ih =>
    rw [List.map_cons, printLines]
    split
    · exact Nat.le_add_right _ _
    · rename_i printed hprinted
      have hle := (Line.length_le hprinted).1
      have hmost := ih (session.write (printed ++ "\n"))
      simp only [Session.write, String.length_append, List.map_cons, onLines] at hmost ⊢
      omega

/-- **Lines are printed as they are meant exactly if nothing in their texts is taken for markup.** -/
theorem printLines_eq_iff (session : Session) (lines : List Line) :
    (printLines session (lines.map Line.raw)).1.printed =
      session.printed ++ onLines (lines.map Line.meant) ↔
    ∀ line ∈ lines, Verbatim line.text.toList := by
  refine ⟨fun h => ?_, fun h => by rw [printLines_eq h]; rfl⟩
  have hlength : session.printed.length + (onLines (lines.map Line.meant)).length ≤
      (printLines session (lines.map Line.raw)).1.printed.length := by
    have hsame := congrArg String.length h
    rw [String.length_append] at hsame
    exact Nat.le_of_eq hsame.symm
  clear h
  induction lines generalizing session with
  | nil => simp
  | cons line rest ih =>
    simp only [List.map_cons] at hlength
    rw [printLines] at hlength
    have hnewline : "\n".length = 1 := by decide
    split at hlength
    · -- a line at fault ends the printing, and even its line end is missing
      simp only [onLines, String.length_append] at hlength
      omega
    · rename_i printed hprinted
      obtain ⟨hle, hlt⟩ := Line.length_le hprinted
      have hmost := length_printLines_le (session.write (printed ++ "\n")) rest
      simp only [Session.write, String.length_append, onLines] at hlength hmost
      -- the other lines cannot make up for what is missing in this one
      refine List.forall_mem_cons.mpr ⟨Classical.byContradiction fun hno => ?_,
        ih (session.write (printed ++ "\n")) ?_⟩
      · have hless := hlt hno
        omega
      · simp only [Session.write, String.length_append]
        omega

end

/-! ## Questions -/

lemma filter_isShown_number (n : Nat) : (toString n).toList.filter isShown = (toString n).toList := by
  rw [List.filter_eq_self]
  intro c hc
  have hmem : c ∈ Nat.toDigits 10 n := by simpa using hc
  have hdigit : c.isDigit = true := Nat.isDigit_of_mem_toDigits (by decide) (by decide) hmem
  have hcontrols : ∀ n ∈ [7, 8, 11, 12, 13], n < 48 := by decide
  have hleast : 48 ≤ c.toNat := by
    simp only [Char.isDigit, Bool.and_eq_true, decide_eq_true_eq, UInt32.le_iff_toNat_le] at hdigit
    exact hdigit.1
  rw [isShown, Bool.not_eq_true', Bool.eq_false_iff]
  intro hcontrol
  have hsmall := hcontrols _ (List.contains_iff_mem.mp hcontrol)
  omega

/-- The line of an option with its number. -/
def optionLine (n : Nat) (option : String) : Line where
  written := "  [cyan]" ++ toString n ++ "[/cyan]) "
  shown := "  " ++ toString n ++ ") "
  text := option
  prints := by
    have h := prints_optionLine n
    rw [filter_isShown_number] at h
    simpa [String.toList_append] using h

/-- The lines of the options of a question, with their numbers from `n` on. -/
def numberedLines (n : Nat) (options : List String) : List Line :=
  (options.zipIdx n).map fun option => optionLine option.2 option.1

/-- The options of a question as they are meant to be shown: each on a line with its number. -/
def optionTexts (options : List String) : List String :=
  (options.zipIdx 1).map fun option => "  " ++ toString option.2 ++ ") " ++ option.1

lemma meant_numberedLines (options : List String) :
    (numberedLines 1 options).map Line.meant = optionTexts options := by
  rw [numberedLines, List.map_map]
  rfl

lemma raw_numberedLines (n : Nat) (options : List String) :
    (numberedLines n options).map Line.raw = optionLines n options := by
  induction options generalizing n with
  | nil => rfl
  | cons option rest ih =>
    rw [optionLines, ← ih]
    rfl

lemma forall_mem_numberedLines (n : Nat) (options : List String) :
    (∀ line ∈ numberedLines n options, Verbatim line.text.toList) ↔
      ∀ option ∈ options, Verbatim option.toList := by
  induction options generalizing n with
  | nil => simp [numberedLines]
  | cons option rest ih =>
    have hcons : numberedLines n (option :: rest) = optionLine n option :: numberedLines (n + 1) rest := rfl
    rw [hcons, List.forall_mem_cons, List.forall_mem_cons, ih]
    rfl

section

variable {prompt shown : String} {options : List String} {session : Session}

/-- **The options of a question are printed as they are meant** exactly if nothing in them is taken for
markup. -/
theorem printLines_questionLines_eq_iff (session : Session)
    (hprompt : plainText ("[bold]" ++ prompt ++ "[/bold]") = .ok shown) :
    (printLines session (questionLines prompt options)).1.printed =
        session.printed ++ (shown ++ "\n" ++ onLines (optionTexts options)) ↔
      ∀ option ∈ options, Verbatim option.toList := by
  have hlines : printLines session (questionLines prompt options) =
      printLines (session.write (shown ++ "\n")) ((numberedLines 1 options).map Line.raw) := by
    rw [questionLines, printLines, hprompt, raw_numberedLines]
  rw [hlines, ← forall_mem_numberedLines 1 options,
    ← printLines_eq_iff (session.write (shown ++ "\n")), meant_numberedLines, ← String.append_assoc]
  rfl

/-- What is read adds to what was printed before. -/
lemma exists_printed_readSelection (count : Nat) (printed : String) (lines : List String) :
    ∃ rest, (readSelection count printed lines).2.printed = printed ++ rest := by
  induction lines generalizing printed with
  | nil => exact ⟨multiPrompt, rfl⟩
  | cons line rest ih =>
    rw [readSelection]
    split
    · exact ⟨multiPrompt, rfl⟩
    · exact ⟨multiPrompt, rfl⟩
    · obtain ⟨more, hmore⟩ := ih (printed ++ multiPrompt ++ "Please enter numbers from the list.\n")
      exact ⟨multiPrompt ++ "Please enter numbers from the list.\n" ++ more, by
        rw [hmore, String.append_assoc, String.append_assoc, String.append_assoc]⟩

lemma exists_printed_readNumber (count : Nat) (printed : String) (lines : List String) :
    ∃ rest, (readNumber count printed lines).2.printed = printed ++ rest := by
  induction lines generalizing printed with
  | nil => exact ⟨singlePrompt count, rfl⟩
  | cons line rest ih =>
    rw [readNumber]
    split
    · exact ⟨singlePrompt count, rfl⟩
    · rename_i message _
      obtain ⟨more, hmore⟩ := ih (printed ++ singlePrompt count ++ message)
      exact ⟨singlePrompt count ++ message ++ more, by
        rw [hmore, String.append_assoc, String.append_assoc, String.append_assoc]⟩

/-- A question is printed before a line is read. -/
lemma exists_printed_multiSelect (hne : options ≠ []) :
    ∃ rest, (multiSelect prompt options session).2.printed =
      (printLines session (questionLines prompt options)).1.printed ++ rest := by
  unfold multiSelect
  rw [if_neg (by simpa using hne)]
  split
  · rename_i printed fault hprint
    exact ⟨"", by rw [hprint, String.append_empty]⟩
  · rename_i printed hprint
    rw [hprint]
    exact exists_printed_readSelection _ _ _

lemma exists_printed_select :
    ∃ rest, (select prompt options session).2.printed =
      (printLines session (questionLines prompt options)).1.printed ++ rest := by
  unfold select
  split
  · rename_i printed fault hprint
    exact ⟨"", by rw [hprint, String.append_empty]⟩
  · rename_i printed hprint
    rw [hprint]
    exact exists_printed_readNumber _ _ _

end

end ThemeOverride.Console
