import Mathlib.Tactic.Lemma
import ThemeOverride.Console.Prompt

/-!
# Texts inside of markup

Texts from outside, such as names and paths, are printed inside of lines that hold tags of their own.
Such a line is at fault only if one of these texts holds what begins a closing tag.

## Main definitions

* `ThemeOverride.Console.HoldsClosing` — a text that holds what begins a closing tag.

## Main results

* `ThemeOverride.Console.markupPieces_append` — the pieces of a text without such a beginning, in
  front of a closing tag.
* `ThemeOverride.Console.showPieces_append` — what is shown of pieces of which none closes a tag.
* `ThemeOverride.Console.holdsClosing_of_questionLines` — a question at fault holds such a text.
-/

namespace ThemeOverride.Console

/-- A text holds what begins a closing tag: an opening bracket with a slash behind it. -/
def HoldsClosing (s : String) : Prop := ['[', '/'] <:+: s.toList

lemma HoldsClosing.slash_mem {s : String} (h : HoldsClosing s) : '/' ∈ s.toList :=
  h.subset (by simp)

/-! ## Pieces -/

/-- None of the pieces is a closing tag. -/
def NoneCloses (ps : List Piece) : Prop := ∀ inside, .tag ('/' :: inside) ∉ ps

/-- A closing tag as it is written. -/
def closingTag (inside : List Char) : List Char := '[' :: '/' :: (inside ++ [']'])

/-- Whether a character stands inside of a tag. -/
def isInside (c : Char) : Bool := c != ']' && c != '['

variable {s tail : List Char} {c : Char} {fuel : Nat}

@[simp] lemma markupPieces_nil (fuel : Nat) : markupPieces fuel [] = [] := by
  cases fuel <;> rfl

/-- A character that is neither a bracket nor a backslash is shown. -/
lemma markupPieces_cons (hc : c ≠ '\\') (hb : c ≠ '[') :
    markupPieces (fuel + 1) (c :: s) = .shown [c] :: markupPieces fuel s := by
  have hslash : (c == '\\') = false := by simpa using hc
  simp [markupPieces, List.takeWhile, hslash, hb]

lemma markupPieces_append_of_plain (hs : ∀ c ∈ s, c ≠ '\\' ∧ c ≠ '[') :
    markupPieces (s.length + fuel) (s ++ tail) =
      s.map (fun c => .shown [c]) ++ markupPieces fuel tail := by
  induction s with
  | nil => simp
  | cons c s ih =>
    obtain ⟨hc, hrest⟩ := List.forall_mem_cons.mp hs
    rw [List.length_cons, Nat.add_right_comm, List.cons_append, markupPieces_cons hc.1 hc.2,
      ih hrest]
    rfl

/-- Brackets behind backslashes: a tag, or text that looks like one. -/
lemma markupPieces_bracket (fuel n : Nat) (behind : List Char) :
    markupPieces (fuel + 1) (List.replicate n '\\' ++ '[' :: behind) =
      match tagAt? behind with
      | some (inside, after) =>
        if n % 2 == 1 then
          .shown (List.replicate (n / 2) '\\') :: .shown ('[' :: inside ++ [']']) ::
            markupPieces fuel after
        else .shown (List.replicate (n / 2) '\\') :: .tag inside :: markupPieces fuel after
      | none => .shown ((List.replicate n '\\').dropLast ++ ['[']) :: markupPieces fuel behind := by
  have hslashes : (List.replicate n '\\' ++ '[' :: behind).takeWhile (· == '\\') =
      List.replicate n '\\' := by
    rw [List.takeWhile_append_of_pos (by simp)]
    simp [List.takeWhile]
  have hdrop : (List.replicate n '\\' ++ '[' :: behind).drop n = '[' :: behind :=
    List.drop_left' (by simp)
  obtain ⟨first, rest, hne⟩ : ∃ first rest, List.replicate n '\\' ++ '[' :: behind = first :: rest :=
    List.exists_cons_of_ne_nil (by simp)
  rw [hne] at hslashes hdrop ⊢
  cases htag : tagAt? behind with
  | none => simp [markupPieces, hslashes, hdrop, htag]
  | some found =>
    obtain ⟨inside, after⟩ := found
    simp [markupPieces, hslashes, hdrop, htag]

/-- Backslashes before something else are shown. -/
lemma markupPieces_slashes {n : Nat} (hn : 0 < n) (hs : ∀ rest, s ≠ '\\' :: rest ∧ s ≠ '[' :: rest) :
    markupPieces (fuel + 1) (List.replicate n '\\' ++ s) =
      .shown (List.replicate n '\\') :: markupPieces fuel s := by
  have hslashes : (List.replicate n '\\' ++ s).takeWhile (· == '\\') = List.replicate n '\\' := by
    rw [List.takeWhile_append_of_pos (by simp)]
    cases s with
    | nil => simp
    | cons c rest =>
      have hc : (c == '\\') = false := by simpa using fun h => (hs rest).1 (by rw [h])
      simp [List.takeWhile, hc]
  have hdrop : (List.replicate n '\\' ++ s).drop n = s := List.drop_left' (by simp)
  obtain ⟨first, rest, hne⟩ : ∃ first rest, List.replicate n '\\' ++ s = first :: rest :=
    List.exists_cons_of_ne_nil (by simp; omega)
  rw [hne] at hslashes hdrop ⊢
  have hempty : (List.replicate n '\\').isEmpty = false := by simp; omega
  simp only [markupPieces, hslashes, List.length_replicate, hdrop, hempty]
  split
  · rename_i behind
    exact absurd rfl (hs behind).2
  · rfl

/-- A text begins with backslashes, perhaps none, and goes on with something else. -/
lemma exists_slashes (s : List Char) :
    ∃ n u, s = List.replicate n '\\' ++ u ∧ ∀ rest, u ≠ '\\' :: rest := by
  refine ⟨_, s.dropWhile (· == '\\'), (List.takeWhile_append_dropWhile (p := (· == '\\'))).symm.trans
    (congrArg (· ++ _) (List.eq_replicate_of_mem fun c hc => ?_)), fun rest h => ?_⟩
  · simpa using List.all_eq_true.mp (List.all_takeWhile (p := (· == '\\')) (l := s)) c hc
  · have hnot := List.head?_dropWhile_not (· == '\\') s
    rw [h] at hnot
    simp at hnot

/-- The inside of a tag and the text behind it, if the text behind the inside closes the tag. -/
def tagBefore? (inside : List Char) : List Char → Option (List Char × List Char)
  | ']' :: rest => some (inside, rest)
  | _ => none

/-- A tag reaches up to the first bracket, which has to close it. -/
lemma tagAt?_cons (hc : beginsTag c = true) (hs : ∀ d ∈ s, isInside d = true)
    (htail : ∀ d rest, tail = d :: rest → isInside d = false) :
    tagAt? (c :: (s ++ tail)) = tagBefore? (c :: s) tail := by
  have hinside : isInside c = true := by
    rcases Bool.eq_false_or_eq_true (isInside c) with h | h
    · exact h
    · simp only [isInside, Bool.and_eq_false_iff, bne_eq_false_iff_eq] at h
      rcases h with rfl | rfl <;> simp [beginsTag] at hc
  have htake : tail.takeWhile isInside = [] := by
    cases tail with
    | nil => rfl
    | cons d rest => simp [htail d rest rfl]
  have hstretch : (c :: (s ++ tail)).takeWhile isInside = c :: s := by
    rw [List.takeWhile_cons_of_pos hinside, List.takeWhile_append_of_pos hs, htake, List.append_nil]
  have hdrop : (c :: (s ++ tail)).drop (c :: s).length = tail := List.drop_left
  change (if !beginsTag c then none else
    tagBefore? ((c :: (s ++ tail)).takeWhile isInside)
      ((c :: (s ++ tail)).drop ((c :: (s ++ tail)).takeWhile isInside).length)) = _
  rw [hc, hstretch, hdrop]
  rfl

/-- **Where a tag may begin in front of a closing tag or nothing**, in a text that holds no beginning of
a closing tag: a tag there closes nothing, and ends in the text. -/
lemma tagAt?_append (hs : ¬ ['[', '/'] <:+: '[' :: s)
    (htail : tail = [] ∨ ∃ inside, tail = closingTag inside) :
    tagAt? (s ++ tail) = none ∨
      ∃ c inside after, tagAt? (s ++ tail) = some (c :: inside, after ++ tail) ∧ c ≠ '/' ∧
        after <:+ s := by
  have hhead : ∀ d rest, tail = d :: rest → d = '[' := by
    rintro d rest rfl
    obtain h | ⟨inside, h⟩ := htail
    · cases h
    · exact (List.cons.inj h).1
  have hnone : ∀ c, beginsTag c = false → ∀ rest, tagAt? (c :: rest) = none := fun c hc rest => by
    simp [tagAt?, hc]
  cases s with
  | nil =>
    left
    rw [List.nil_append]
    cases hcases : tail with
    | nil => rfl
    | cons d rest => exact hnone d (by rw [hhead d rest hcases]; rfl) rest
  | cons c s =>
    cases hbegins : beginsTag c with
    | false => exact .inl (hnone c hbegins _)
    | true =>
      have hc : c ≠ '/' := by
        rintro rfl
        exact hs ⟨[], s, rfl⟩
      -- the text up to its first bracket, and what is left
      have hsplit := List.takeWhile_append_dropWhile (p := isInside) (l := s)
      have hinside : ∀ d ∈ s.takeWhile isInside, isInside d = true := fun d hd =>
        List.all_eq_true.mp (List.all_takeWhile (p := isInside) (l := s)) d hd
      generalize s.takeWhile isInside = inside at hsplit hinside
      cases hrest : s.dropWhile isInside with
      | nil =>
        left
        rw [hrest, List.append_nil] at hsplit
        subst hsplit
        rw [List.cons_append, tagAt?_cons hbegins hinside
          (fun d rest h => by rw [hhead d rest h]; rfl)]
        cases hcases : tail with
        | nil => rfl
        | cons d rest =>
          obtain rfl := hhead d rest hcases
          rfl
      | cons d after =>
        have hd : isInside d = false := by
          have h := List.head?_dropWhile_not isInside s
          rw [hrest] at h
          simpa using h
        have heq : tagAt? (c :: s ++ tail) = tagBefore? (c :: inside) (d :: (after ++ tail)) := by
          rw [← hsplit, hrest, List.cons_append, List.append_assoc, List.cons_append]
          exact tagAt?_cons hbegins hinside fun e _ h => by rw [← (List.cons.inj h).1, hd]
        by_cases hclose : d = ']'
        · subst hclose
          refine .inr ⟨c, inside, after, heq, hc, ?_⟩
          rw [← hsplit, hrest]
          exact ⟨c :: (inside ++ [']']), by simp⟩
        · left
          rw [heq]
          simp [tagBefore?, hclose]

/-- None of the pieces closes a tag, but perhaps the last one, which is a given closing tag. -/
def ClosesLast (closing : Option (List Char)) (pieces : List Piece) : Prop :=
  ∃ ps last, pieces = ps ++ last ∧ NoneCloses ps ∧
    (last = [] ∨ ∃ inside ∈ closing, last = [.tag ('/' :: inside)])

namespace ClosesLast

variable {closing : Option (List Char)} {pieces : List Piece}

protected lemma nil : ClosesLast closing [] := ⟨[], [], rfl, by simp [NoneCloses], .inl rfl⟩

lemma shown (text : List Char) (h : ClosesLast closing pieces) :
    ClosesLast closing (.shown text :: pieces) := by
  obtain ⟨ps, last, rfl, hps, hlast⟩ := h
  exact ⟨.shown text :: ps, last, rfl, fun inside hm =>
    hps inside ((List.mem_cons.mp hm).resolve_left (by simp)), hlast⟩

lemma tag {c : Char} {inside : List Char} (hc : c ≠ '/') (h : ClosesLast closing pieces) :
    ClosesLast closing (.tag (c :: inside) :: pieces) := by
  obtain ⟨ps, last, rfl, hps, hlast⟩ := h
  exact ⟨.tag (c :: inside) :: ps, last, rfl, fun other hm =>
    hps other ((List.mem_cons.mp hm).resolve_left (by simp [hc.symm])), hlast⟩

end ClosesLast

/-- The pieces of a closing tag behind backslashes. -/
lemma markupPieces_closingTag {inside : List Char} (h : ∀ c ∈ inside, isInside c = true)
    (n fuel : Nat) :
    ClosesLast (some inside) (markupPieces fuel (List.replicate n '\\' ++ closingTag inside)) := by
  cases fuel with
  | zero => exact .nil
  | succ fuel =>
    have htag : tagAt? ('/' :: (inside ++ [']'])) = some ('/' :: inside, []) :=
      tagAt?_cons rfl h fun d rest hd => by rw [← (List.cons.inj hd).1]; rfl
    rw [closingTag, markupPieces_bracket, htag]
    dsimp only
    rw [markupPieces_nil]
    split
    · exact ClosesLast.nil.shown _ |>.shown _
    · exact .shown _ ⟨[], _, rfl, by simp [NoneCloses], .inr ⟨inside, rfl, rfl⟩⟩

/-- **The pieces of a text that holds no beginning of a closing tag**, in front of a closing tag or
nothing: none of them closes a tag, but for what is behind the text.

**Proof sketch.** By induction on how many pieces are read. Behind the backslashes at the beginning of a
text, perhaps none, is nothing, a bracket or another character. -/
theorem markupPieces_append (hs : ¬ ['[', '/'] <:+: s) (closing : Option (List Char))
    (hclosing : ∀ inside ∈ closing, ∀ c ∈ inside, isInside c = true) (fuel : Nat) :
    ClosesLast closing (markupPieces fuel (s ++ (closing.map closingTag).getD [])) := by
  induction fuel generalizing s with
  | zero => exact .nil
  | succ fuel ih =>
    have hwithin : ∀ {t : List Char}, t <:+: s → ¬ ['[', '/'] <:+: t := fun ht h => hs (h.trans ht)
    obtain ⟨n, u, rfl, hu⟩ := exists_slashes s
    generalize htail : (closing.map closingTag).getD [] = tail at ih ⊢
    have hends : tail = [] ∨ ∃ inside, tail = closingTag inside := by
      cases closing with
      | none => exact .inl htail.symm
      | some inside => exact .inr ⟨inside, htail.symm⟩
    rw [List.append_assoc]
    cases u with
    | nil =>
      cases closing with
      | some inside =>
        subst htail
        exact markupPieces_closingTag (hclosing inside rfl) n (fuel + 1)
      | none =>
        subst htail
        cases n with
        | zero => exact .nil
        | succ n =>
          rw [List.nil_append, Option.map_none, Option.getD_none, markupPieces_slashes (by omega)
            (by simp), markupPieces_nil]
          exact ClosesLast.nil.shown _
    | cons c b =>
      have hb : b <:+: List.replicate n '\\' ++ c :: b :=
        (List.suffix_cons c b).isInfix.trans (List.suffix_append _ _).isInfix
      by_cases hc : c = '['
      · subst hc
        rw [List.cons_append, markupPieces_bracket]
        rcases tagAt?_append (hwithin (List.suffix_append _ _).isInfix) hends with
          htag | ⟨c, inside, after, htag, hc, hafter⟩
        · rw [htag]
          exact (ih (hwithin hb)).shown _
        · rw [htag]
          have hrest := ih (hwithin (hafter.isInfix.trans hb))
          dsimp only
          split
          · exact (hrest.shown _).shown _
          · exact (hrest.tag hc).shown _
      · cases n with
        | zero =>
          rw [List.replicate_zero, List.nil_append, List.cons_append,
            markupPieces_cons (fun h => hu b (by rw [h])) hc]
          exact (ih (hwithin hb)).shown _
        | succ n =>
          have hother : ∀ rest, c :: b ++ tail ≠ '\\' :: rest ∧ c :: b ++ tail ≠ '[' :: rest :=
            fun rest => ⟨fun h => hu b (by rw [(List.cons.inj h).1]), fun h => hc (List.cons.inj h).1⟩
          rw [markupPieces_slashes n.succ_pos hother]
          exact (ih (hwithin (List.suffix_append _ _).isInfix)).shown _

/-! ## What is shown -/

variable {opened : List (List Char)} {ps : List Piece}

@[simp] lemma showPieces_nil (opened : List (List Char)) : showPieces opened [] = .ok [] := rfl

lemma showPieces_shown (opened : List (List Char)) (text : List Char) (ps : List Piece) :
    showPieces opened (.shown text :: ps) =
      (showPieces opened ps).map (text.filter isShown ++ ·) := rfl

/-- A tag that closes nothing is open behind it. -/
lemma showPieces_tag {inside : List Char} (h : ∀ rest, inside ≠ '/' :: rest) :
    showPieces opened (.tag inside :: ps) = showPieces (tagName inside :: opened) ps := by
  rw [showPieces]
  exact h

/-- A closing tag without a name closes the tag that was opened last. -/
lemma showPieces_slash (top : List Char) (below : List (List Char)) (inside : List Char)
    (ps : List Piece) :
    showPieces (top :: below) (.tag ('/' :: inside) :: ps) =
      if (tagName inside).isEmpty then showPieces below ps
      else if (top :: below).contains (tagName inside) then
        showPieces ((top :: below).erase (tagName inside)) ps
      else .error .unmatchedClosing := rfl

/-- **What is shown of pieces of which none closes a tag**: they are shown, and the tags that they open
are open behind them. -/
theorem showPieces_append {ps : List Piece} (h : NoneCloses ps) (opened : List (List Char)) :
    ∃ shown more, ∀ qs,
      showPieces opened (ps ++ qs) = (showPieces (more ++ opened) qs).map (shown ++ ·) := by
  induction ps generalizing opened with
  | nil =>
    refine ⟨[], [], fun qs => ?_⟩
    cases h : showPieces opened qs <;> simp [h, Except.map]
  | cons p ps ih =>
    have hrest : NoneCloses ps := fun inside hm => h inside (List.mem_cons_of_mem _ hm)
    cases p with
    | shown text =>
      obtain ⟨shown, more, heq⟩ := ih hrest opened
      refine ⟨text.filter isShown ++ shown, more, fun qs => ?_⟩
      rw [List.cons_append, showPieces_shown, heq]
      cases showPieces (more ++ opened) qs <;> simp [Except.map]
    | tag inside =>
      obtain ⟨shown, more, heq⟩ := ih hrest (tagName inside :: opened)
      refine ⟨shown, more ++ [tagName inside], fun qs => ?_⟩
      have hopens : ∀ rest, inside ≠ '/' :: rest := fun rest hrest =>
        h rest (by rw [hrest]; exact List.mem_cons_self)
      rw [List.cons_append, showPieces_tag hopens, heq, List.append_assoc, List.singleton_append]

/-- A closing tag is no fault where its tag is open. -/
lemma showPieces_closing {opened : List (List Char)} {inside : List Char}
    (h : tagName inside ∈ opened) (ps : List Piece) :
    ∃ below, showPieces opened (.tag ('/' :: inside) :: ps) = showPieces below ps := by
  cases opened with
  | nil => cases h
  | cons top below =>
    rw [showPieces_slash]
    split
    · exact ⟨below, rfl⟩
    · rw [if_pos (List.contains_iff_mem.mpr h)]
      exact ⟨_, rfl⟩

/-- A closing tag closes the tag that was opened last. -/
lemma showPieces_closing_top (opened : List (List Char)) (inside : List Char) (ps : List Piece) :
    showPieces (tagName inside :: opened) (.tag ('/' :: inside) :: ps) = showPieces opened ps := by
  simp [showPieces_slash]

/-- Pieces of which at most the last closes a tag are shown, if that tag is open. -/
lemma ClosesLast.exists_showPieces {closing : Option (List Char)} {pieces : List Piece}
    (h : ClosesLast closing pieces) {opened : List (List Char)}
    (hopened : ∀ inside ∈ closing, tagName inside ∈ opened) :
    ∃ shown, showPieces opened pieces = .ok shown := by
  obtain ⟨ps, last, rfl, hps, hlast⟩ := h
  obtain ⟨shown, more, heq⟩ := showPieces_append hps opened
  rw [heq]
  rcases hlast with rfl | ⟨inside, hinside, rfl⟩
  · exact ⟨shown ++ [], rfl⟩
  · obtain ⟨below, hbelow⟩ :=
      showPieces_closing (List.mem_append_right more (hopened inside hinside)) []
    exact ⟨shown ++ [], by rw [hbelow]; rfl⟩

/-! ## What is printed around a text -/

/-- **A stretch of a line that is printed as it is meant**: it leaves open the tags that are open before
it, and what is behind it is printed as if it stood alone. -/
def Prints (fixed shown : List Char) : Prop :=
  ∃ ps k, k ≤ fixed.length ∧
    (∀ fuel rest, markupPieces (k + fuel) (fixed ++ rest) = ps ++ markupPieces fuel rest) ∧
    ∀ opened qs, showPieces opened (ps ++ qs) = (showPieces opened qs).map (shown ++ ·)

namespace Prints

variable {a b x y : List Char}

/-- Characters that are neither brackets nor backslashes. -/
lemma plain (h : ∀ c ∈ a, c ≠ '\\' ∧ c ≠ '[') : Prints a (a.filter isShown) := by
  refine ⟨a.map fun c => .shown [c], a.length, Nat.le_refl _,
    fun fuel rest => markupPieces_append_of_plain h, fun opened qs => ?_⟩
  clear h
  induction a with
  | nil => cases h : showPieces opened qs <;> simp [h, Except.map]
  | cons c a ih =>
    rw [List.map_cons, List.cons_append, showPieces_shown, ih]
    cases showPieces opened qs <;> simp [Except.map, List.filter_cons]
    split <;> simp

/-- One stretch after another. -/
protected lemma append (h : Prints a x) (h' : Prints b y) : Prints (a ++ b) (x ++ y) := by
  obtain ⟨ps, k, hk, hpieces, hshown⟩ := h
  obtain ⟨qs, l, hl, hpieces', hshown'⟩ := h'
  refine ⟨ps ++ qs, k + l, by rw [List.length_append]; omega, fun fuel rest => ?_, fun opened rs => ?_⟩
  · rw [List.append_assoc, Nat.add_assoc, hpieces, hpieces', List.append_assoc]
  · rw [List.append_assoc, hshown, hshown']
    cases showPieces opened rs <;> simp [Except.map]

/-- A stretch between a tag and what closes it. -/
lemma tagged {c : Char} {name : List Char} (hc : beginsTag c = true) (hslash : c ≠ '/')
    (hname : ∀ d ∈ name, isInside d = true) (hinside : isInside c = true) (h : Prints b y) :
    Prints ('[' :: c :: (name ++ ']' :: b) ++ closingTag (c :: name)) y := by
  obtain ⟨ps, k, hk, hpieces, hshown⟩ := h
  refine ⟨.shown [] :: .tag (c :: name) :: (ps ++ [.shown [], .tag ('/' :: c :: name)]), k + 2,
    by simp [closingTag]; omega, fun fuel rest => ?_, fun opened qs => ?_⟩
  · have hopen : tagAt? (c :: (name ++ ']' :: (b ++ (closingTag (c :: name) ++ rest)))) =
        some (c :: name, b ++ (closingTag (c :: name) ++ rest)) :=
      tagAt?_cons hc hname fun d rest hd => by rw [← (List.cons.inj hd).1]; rfl
    have hclose : tagAt? ('/' :: (c :: name ++ ']' :: rest)) = some ('/' :: c :: name, rest) :=
      tagAt?_cons rfl (List.forall_mem_cons.mpr ⟨hinside, hname⟩)
        fun d rest hd => by rw [← (List.cons.inj hd).1]; rfl
    have hfirst := markupPieces_bracket (k + (fuel + 1)) 0
      (c :: (name ++ ']' :: (b ++ (closingTag (c :: name) ++ rest))))
    have hlast := markupPieces_bracket fuel 0 ('/' :: (c :: name ++ ']' :: rest))
    rw [hopen] at hfirst
    rw [hclose] at hlast
    have hmid := hpieces (fuel + 1) (closingTag (c :: name) ++ rest)
    simp only [List.replicate_zero, List.nil_append, Nat.zero_mod, Nat.zero_div] at hfirst hlast
    simp only [closingTag, List.cons_append, List.append_assoc, List.nil_append] at hfirst hlast hmid ⊢
    rw [show k + 2 + fuel = k + (fuel + 1) + 1 by omega, hfirst, hmid, hlast]
    simp
  · rw [List.cons_append, List.cons_append, List.append_assoc]
    have hopened : ∀ rs, showPieces opened (.tag (c :: name) :: rs) =
        showPieces (tagName (c :: name) :: opened) rs := fun rs =>
      showPieces_tag fun _ h => hslash (List.cons.inj h).1
    have hnothing : ∀ below rs, showPieces below (.shown [] :: rs) = showPieces below rs :=
      fun below rs => by
        rw [showPieces_shown]
        cases showPieces below rs <;> rfl
    rw [hnothing, hopened, hshown, List.cons_append, List.cons_append, hnothing,
      showPieces_closing_top, List.nil_append]

end Prints

/-! ## Lines -/

/-- **A text is shown where no tags are open**, unless it holds what begins a closing tag. -/
lemma exists_showPieces {s : String} (h : ¬ HoldsClosing s) (fuel : Nat) :
    ∃ shown, showPieces [] (markupPieces fuel s.toList) = .ok shown := by
  have hpieces := markupPieces_append h none (by simp) fuel
  rw [Option.map_none, Option.getD_none, List.append_nil] at hpieces
  exact hpieces.exists_showPieces (by simp)

/-- What is shown of a line that begins with a stretch. -/
lemma Prints.plainText_eq {before : String} {shown : List Char} (h : Prints before.toList shown)
    (s : String) : ∃ fuel, s.toList.length < fuel ∧ plainText (before ++ s) =
      (showPieces [] (markupPieces fuel s.toList)).map fun text => String.ofList (shown ++ text) := by
  obtain ⟨ps, k, hk, hpieces, hshown⟩ := h
  have hlength : (before ++ s).length + 1 = k + ((before ++ s).length + 1 - k) := by
    rw [String.length_append]
    rw [String.length_toList] at hk
    omega
  refine ⟨(before ++ s).length + 1 - k, ?_, ?_⟩
  · rw [String.length_append, String.length_toList]
    rw [String.length_toList] at hk
    omega
  unfold plainText
  rw [String.toList_append]
  generalize (before ++ s).length + 1 - k = fuel at hlength
  rw [hlength, hpieces, hshown]
  cases showPieces [] (markupPieces fuel s.toList) <;> rfl

/-- A line that begins with a stretch is at fault only if the text behind that holds what begins a
closing tag. -/
lemma Prints.holdsClosing {before : String} {shown : List Char} (h : Prints before.toList shown)
    {s : String} {fault : MarkupFault} (hfault : plainText (before ++ s) = .error fault) :
    HoldsClosing s := by
  refine Classical.byContradiction fun hno => ?_
  obtain ⟨fuel, -, heq⟩ := h.plainText_eq s
  obtain ⟨text, htext⟩ := exists_showPieces hno fuel
  rw [heq, htext] at hfault
  cases hfault

lemma prints_errorLine : Prints "[red]Error:[/red] ".toList "Error: ".toList := by
  have hname : ∀ c ∈ "ed".toList, isInside c = true := List.all_eq_true.mp rfl
  exact ((Prints.plain (a := "Error:".toList) (by simp)).tagged (c := 'r') rfl (by decide) hname
    rfl).append (Prints.plain (a := " ".toList) (by simp))

/-- **A line that shows a message begins with a word for errors.** -/
lemma exists_of_plainText_errorLine {message line : String}
    (h : plainText ("[red]Error:[/red] " ++ message) = .ok line) :
    ∃ shown, line = "Error: " ++ shown := by
  obtain ⟨fuel, -, heq⟩ := prints_errorLine.plainText_eq message
  rw [heq] at h
  cases hshown : showPieces [] (markupPieces fuel message.toList) with
  | error fault =>
    rw [hshown] at h
    cases h
  | ok text =>
    rw [hshown] at h
    cases h
    exact ⟨String.ofList text, String.ofList_append⟩

lemma prints_createdLine : Prints "  - ".toList "  - ".toList := .plain (a := "  - ".toList) (by simp)

/-- The digits of a number are printed as they are. -/
lemma prints_number (n : Nat) : Prints (toString n).toList ((toString n).toList.filter isShown) := by
  refine .plain fun c hc => ?_
  have hmem : c ∈ Nat.toDigits 10 n := by simpa using hc
  have hdigit : c.isDigit = true := Nat.isDigit_of_mem_toDigits (by decide) (by decide) hmem
  constructor <;> rintro rfl <;> exact absurd hdigit (by decide)

lemma prints_optionLine (n : Nat) :
    Prints ("  [cyan]" ++ toString n ++ "[/cyan]) ").toList
      ("  ".toList ++ (toString n).toList.filter isShown ++ ") ".toList) := by
  have hname : ∀ c ∈ "yan".toList, isInside c = true := List.all_eq_true.mp rfl
  have h := ((Prints.plain (a := "  ".toList) (by simp)).append
    ((prints_number n).tagged (c := 'c') rfl (by decide) hname rfl)).append
      (Prints.plain (a := ") ".toList) (by simp))
  simpa [closingTag, String.toList_append, List.filter, isShown] using h

lemma holdsClosing_of_promptLine {prompt : String} {fault : MarkupFault}
    (h : plainText ("[bold]" ++ prompt ++ "[/bold]") = .error fault) : HoldsClosing prompt := by
  refine Classical.byContradiction fun hno => ?_
  have hopen : ∀ fuel rest, markupPieces (fuel + 1) ("[bold]".toList ++ rest) =
      .shown [] :: .tag "bold".toList :: markupPieces fuel rest := fun fuel rest =>
    (markupPieces_bracket fuel 0 ("bold]".toList ++ rest)).trans (by
      rw [show tagAt? ("bold]".toList ++ rest) = some ("bold".toList, rest) from rfl]
      rfl)
  have hinside : "bold".toList.all isInside = true := rfl
  have hpieces := markupPieces_append hno (some "bold".toList) (by simpa using hinside)
    ("[bold]" ++ prompt ++ "[/bold]").length
  have hopened : ∀ inside ∈ some "bold".toList, tagName inside ∈ [tagName "bold".toList] := by simp
  obtain ⟨shown, hshown⟩ := hpieces.exists_showPieces hopened
  unfold plainText at h
  rw [String.toList_append, String.toList_append, List.append_assoc, hopen] at h
  change (showPieces [] (.shown [] :: .tag "bold".toList :: markupPieces _
    (prompt.toList ++ closingTag "bold".toList))).map String.ofList = _ at h
  rw [Option.map_some, Option.getD_some] at hshown
  generalize markupPieces ("[bold]" ++ prompt ++ "[/bold]").length
    (prompt.toList ++ closingTag "bold".toList) = pieces at h hshown
  have hall : showPieces [] (.shown [] :: .tag "bold".toList :: pieces) = .ok shown := by
    have hmore : showPieces [] (.shown [] :: .tag "bold".toList :: pieces) =
        (showPieces [tagName "bold".toList] pieces).map ([] ++ ·) := rfl
    rw [hmore, hshown]
    rfl
  rw [hall] at h
  cases h

lemma holdsClosing_of_optionLines {n : Nat} {options : List String} {line : String}
    {fault : MarkupFault} (hline : line ∈ optionLines n options)
    (hfault : plainText line = .error fault) : ∃ option ∈ options, HoldsClosing option := by
  induction options generalizing n with
  | nil => cases hline
  | cons option rest ih =>
    rcases List.mem_cons.mp hline with rfl | hline
    · exact ⟨option, List.mem_cons_self, (prints_optionLine n).holdsClosing hfault⟩
    · obtain ⟨other, hother, hholds⟩ := ih hline
      exact ⟨other, List.mem_cons_of_mem _ hother, hholds⟩

/-- **A question at fault holds what begins a closing tag**, or one of its options does. -/
theorem holdsClosing_of_questionLines {prompt : String} {options : List String} {line : String}
    {fault : MarkupFault} (hline : line ∈ questionLines prompt options)
    (hfault : plainText line = .error fault) :
    HoldsClosing prompt ∨ ∃ option ∈ options, HoldsClosing option := by
  rcases List.mem_cons.mp hline with rfl | hline
  · exact .inl (holdsClosing_of_promptLine hfault)
  · exact .inr (holdsClosing_of_optionLines hline hfault)

/-! ## Printing -/

/-- Lines that are not all printed hold one at fault. -/
lemma exists_of_printLines {session session' : Session} {lines : List String} {fault : MarkupFault}
    (h : printLines session lines = (session', some fault)) :
    ∃ line ∈ lines, plainText line = .error fault := by
  induction lines generalizing session with
  | nil => cases h
  | cons line rest ih =>
    rw [printLines] at h
    split at h
    · rename_i hline
      cases h
      exact ⟨line, List.mem_cons_self, hline⟩
    · obtain ⟨other, hother, hfault⟩ := ih h
      exact ⟨other, List.mem_cons_of_mem _ hother, hfault⟩

/-- Printing reads nothing. -/
lemma lines_printLines (session : Session) (lines : List String) :
    (printLines session lines).1.lines = session.lines := by
  induction lines generalizing session with
  | nil => rfl
  | cons line rest ih =>
    rw [printLines]
    split
    · rfl
    · exact ih _

end ThemeOverride.Console
