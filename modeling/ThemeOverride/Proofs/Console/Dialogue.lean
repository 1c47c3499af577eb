import ThemeOverride.Console.Prompt
import ThemeOverride.Proofs.Console.Markup
import ThemeOverride.Proofs.Console.Selection

/-!
# Questions and typed lines

A question is answered by the first typed line that can be accepted. Each line before it is met
with one message, and the question is asked again; where no line is accepted, the input ends. This
module says when that is so. A question for one option always goes on like this once it is printed.
A question for any number of options breaks off at a line in which a number cannot be read.

## Main definitions

* `ThemeOverride.Console.AnsweredBy` — a question is answered by the first line that is accepted.
* `ThemeOverride.Console.Asked` — a question is printed with its options, and then answered.
* `ThemeOverride.Console.accepted?`, `ThemeOverride.Console.chosen?` — what a line selects.
* `ThemeOverride.Console.StaysReadable` — no line up to the first accepted one is unreadable.

## Main results

* `ThemeOverride.Console.accepted?_eq_some_iff`, `ThemeOverride.Console.chosen?_eq_some_iff` — which
  lines are accepted.
* `ThemeOverride.Console.readSelection_answeredBy_iff`,
  `ThemeOverride.Console.readNumber_answeredBy` — the two loops that read lines.
* `ThemeOverride.Console.asked_iff` — when the two questions are answered as they should be.
-/

namespace ThemeOverride.Console

/-! ## Lines that are accepted -/

/-- The positions that a line selects among `count` options, if it is accepted. -/
def accepted? (count : Nat) (line : String) : Option (List Nat) :=
  (parseSelection line count).toOption.join

/-- The position of the option that a line names, if it is accepted. -/
def chosen? (count : Nat) (line : String) : Option Nat := (readChoice count line).toOption

section

variable {count : Nat} {line : String}

/-- **A line is accepted** for any number of options if all of its tokens can be read and are
numbers of options. -/
theorem accepted?_eq_some_iff {positions : List Nat} : accepted? count line = some positions ↔
    (∀ token ∈ selectionTokens line.toList, IsReadable token) ∧
      Selects count (selectionTokens line.toList) (some positions) := by
  have hok : accepted? count line = some positions ↔
      parseSelection line count = .ok (some positions) := by
    unfold accepted?
    cases parseSelection line count <;> simp [Except.toOption]
  rw [hok]
  constructor
  · intro h
    have hreadable := isReadable_of_selectTokens (selectionTokens_ne_nil _) h
    exact ⟨hreadable, (parseSelection_eq_iff count hreadable _).mp h⟩
  · rintro ⟨hreadable, h⟩
    exact (parseSelection_eq_iff count hreadable _).mpr h

lemma toDigits_injective {m n : Nat} (h : Nat.toDigits 10 m = Nat.toDigits 10 n) : m = n := by
  rw [← Nat.ofDigitChars_ten_toDigits (n := m), h, Nat.ofDigitChars_ten_toDigits]

lemma isSome_decimalValue?_of_isDigit {c : Char} (h : c.isDigit = true) :
    (Text.decimalValue? c).isSome = true := by
  have hascii : c.toNat < 128 := by
    simp only [Char.isDigit, Bool.and_eq_true, decide_eq_true_eq, UInt32.le_iff_toNat_le] at h
    have hmost : c.toNat ≤ 57 := h.2
    omega
  simp [Text.decimalValue?, hascii, h]

/-- A row of decimal digits is a number. -/
lemma isSpacedNumber_of_isDigit {s : List Char} (hne : s ≠ []) (h : ∀ c ∈ s, c.isDigit = true) :
    isSpacedNumber s = true := by
  induction s with
  | nil => exact absurd rfl hne
  | cons c rest ih =>
    rw [List.forall_mem_cons] at h
    have hc := isSome_decimalValue?_of_isDigit h.1
    cases rest with
    | nil => simpa [isSpacedNumber] using hc
    | cons d rest =>
      have hd : d ≠ '_' := by
        rintro rfl
        exact absurd (h.2 '_' List.mem_cons_self) (by decide)
      rw [isSpacedNumber]
      · simp [hc, ih (by simp) h.2]
      · simp
      · exact fun _ he => hd (List.cons.inj he).1

/-- A numeral is a number if it is not too long. -/
lemma isInteger_toDigits (n : Nat) :
    isInteger (Nat.toDigits 10 n) = true ↔ (Nat.toDigits 10 n).length ≤ mostDigits := by
  have hdigit : ∀ c ∈ Nat.toDigits 10 n, c.isDigit = true := fun c hc =>
    Nat.isDigit_of_mem_toDigits (by decide) (by decide) hc
  have hspaced := isSpacedNumber_of_isDigit Nat.toDigits_ne_nil hdigit
  have hlow : (Nat.toDigits 10 n).filter (· != '_') = Nat.toDigits 10 n := by
    rw [List.filter_eq_self]
    intro c hc
    rw [bne_iff_ne]
    rintro rfl
    exact absurd (hdigit '_' hc) (by decide)
  unfold isInteger
  split
  · rename_i rest heq
    exact absurd (hdigit '+' (by simp [heq])) (by decide)
  · rename_i rest heq
    exact absurd (hdigit '-' (by simp [heq])) (by decide)
  · dsimp only
    rw [hspaced, hlow]
    simp

lemma find?_numeral_eq_some_iff {s : List Char} {n : Nat} :
    ((List.range count).find? fun m => (toString (m + 1)).toList == s) = some n ↔
      n < count ∧ s = Nat.toDigits 10 (n + 1) := by
  have hiff : ∀ m : Nat, ((toString (m + 1)).toList == s) = true ↔ s = Nat.toDigits 10 (m + 1) := by
    intro m
    have hnumeral : (toString (m + 1)).toList = Nat.toDigits 10 (m + 1) := by simp
    rw [beq_iff_eq, hnumeral]
    exact eq_comm
  constructor
  · intro h
    exact ⟨List.mem_range.mp (List.mem_of_find?_eq_some h),
      (hiff n).mp (List.find?_some (p := fun m => (toString (m + 1)).toList == s) h)⟩
  · rintro ⟨hn, hs⟩
    cases hfind : (List.range count).find? fun m => (toString (m + 1)).toList == s with
    | none => exact absurd ((hiff n).mpr hs) (List.find?_eq_none.mp hfind n (List.mem_range.mpr hn))
    | some m =>
      have hm := (hiff m).mp
        (List.find?_some (p := fun m => (toString (m + 1)).toList == s) hfind)
      have hsame := toDigits_injective (hs.symm.trans hm)
      rw [Nat.add_right_cancel_iff.mp hsame]

/-- **A line names an option** by its number, which may have blanks around it, and the empty line
names the first. -/
theorem chosen?_eq_some_iff {n : Nat} : chosen? count line = some n ↔
    (line = "" ∧ n = 0) ∨
      (n < count ∧ Text.strip line.toList = Nat.toDigits 10 (n + 1) ∧
        (Nat.toDigits 10 (n + 1)).length ≤ mostDigits) := by
  have hok : chosen? count line = some n ↔ readChoice count line = .ok n := by
    unfold chosen?
    cases readChoice count line <;> simp [Except.toOption]
  rw [hok]
  unfold readChoice
  by_cases hempty : line = ""
  · subst hempty
    have hnone : Text.strip "".toList ≠ Nat.toDigits 10 (n + 1) := fun h =>
      Nat.toDigits_ne_nil h.symm
    rw [if_pos (by rfl), Except.ok.injEq]
    constructor
    · rintro rfl
      exact .inl ⟨rfl, rfl⟩
    · rintro (⟨-, rfl⟩ | ⟨-, hs, -⟩)
      · rfl
      · exact absurd hs hnone
  · rw [if_neg (by simpa using hempty)]
    simp only [hempty, false_and, false_or]
    constructor
    · intro h
      split at h
      · cases h
      · rename_i hinteger
        split at h
        · rename_i m hfind
          cases h
          obtain ⟨hn, hs⟩ := find?_numeral_eq_some_iff.mp hfind
          refine ⟨hn, hs, (isInteger_toDigits _).mp ?_⟩
          rw [← hs]
          simpa using hinteger
        · cases h
    · rintro ⟨hn, hs, hlength⟩
      have hinteger := (isInteger_toDigits (n + 1)).mpr hlength
      rw [← hs] at hinteger
      rw [if_neg (by simp [hinteger]), find?_numeral_eq_some_iff.mpr ⟨hn, hs⟩]

end

/-! ## The first line that is accepted -/

/-- What was printed when lines have been rejected, each with a message behind the question. -/
def afterRejected (ask : String) (message : String → String) (printed : String)
    (lines : List String) : String :=
  lines.foldl (fun shown line => shown ++ ask ++ message line) printed

/-- **A question is answered by the first line that is accepted**, after a message for each line
before it; the lines behind it remain. Where no line is accepted, the input ends while the question
is asked once more. -/
inductive AnsweredBy {α : Type} (ask : String) (answer? : String → Option α)
    (message : String → String) (printed : String) :
    List String → Except PromptFault α × Session → Prop
  | answered {rejected rest : List String} {line : String} {a : α}
      (hrejected : ∀ l ∈ rejected, answer? l = none) (hline : answer? line = some a) :
      AnsweredBy ask answer? message printed (rejected ++ line :: rest)
        (.ok a, ⟨afterRejected ask message printed rejected ++ ask, rest⟩)
  | ended {lines : List String} (h : ∀ l ∈ lines, answer? l = none) :
      AnsweredBy ask answer? message printed lines
        (.error .endOfInput, ⟨afterRejected ask message printed lines ++ ask, []⟩)

section

variable {α : Type} {ask : String} {answer? : String → Option α} {message : String → String}
  {printed line : String} {rest : List String} {r : Except PromptFault α × Session}

lemma answeredBy_nil : AnsweredBy ask answer? message printed []
    (.error .endOfInput, ⟨printed ++ ask, []⟩) := .ended (List.forall_mem_nil _)

lemma answeredBy_of_head {a : α} (h : answer? line = some a) :
    AnsweredBy ask answer? message printed (line :: rest) (.ok a, ⟨printed ++ ask, rest⟩) := by
  have hanswered : AnsweredBy ask answer? message printed ([] ++ line :: rest)
      (.ok a, ⟨afterRejected ask message printed [] ++ ask, rest⟩) :=
    .answered (List.forall_mem_nil _) h
  exact hanswered

/-- A line that is rejected first. -/
lemma answeredBy_cons_iff (h : answer? line = none) :
    AnsweredBy ask answer? message printed (line :: rest) r ↔
      AnsweredBy ask answer? message (printed ++ ask ++ message line) rest r := by
  constructor
  · intro hr
    generalize hlines : line :: rest = lines at hr
    cases hr with
    | @answered rejected _ other a hrejected hline =>
      cases rejected with
      | nil =>
        cases hlines
        rw [h] at hline
        cases hline
      | cons first rejected =>
        cases hlines
        exact .answered (List.forall_mem_cons.mp hrejected).2 hline
    | ended hnone =>
      cases hlines
      exact .ended (List.forall_mem_cons.mp hnone).2
  · intro hr
    cases hr with
    | @answered rejected behind other a hrejected hline =>
      rw [← List.cons_append]
      exact .answered (List.forall_mem_cons.mpr ⟨h, hrejected⟩) hline
    | ended hnone => exact .ended (List.forall_mem_cons.mpr ⟨h, hnone⟩)

/-- No line is read twice, and none is left out. -/
lemma AnsweredBy.suffix {lines : List String}
    (h : AnsweredBy ask answer? message printed lines r) : r.2.lines <:+ lines := by
  cases h with
  | @answered rejected rest line =>
    exact (List.suffix_cons line rest).trans (List.suffix_append rejected _)
  | ended => exact List.nil_suffix

/-- A question that is answered in this way fails at the end of the input alone. -/
lemma AnsweredBy.eq_endOfInput {lines : List String}
    (h : AnsweredBy ask answer? message printed lines r) {fault : PromptFault}
    (hr : r.1 = .error fault) : fault = .endOfInput := by
  cases h with
  | answered => cases hr
  | ended =>
    cases hr
    rfl

end

/-! ## The loops that read lines -/

/-- What answers a line that is rejected where any number of options may be selected. -/
def selectionMessage (_ : String) : String := "Please enter numbers from the list.\n"

/-- What answers a line that is rejected where one option is selected. -/
def choiceMessage (count : Nat) (line : String) : String :=
  match readChoice count line with
  | .ok _ => ""
  | .error message => message

/-- **No line up to the first that is accepted holds a number that cannot be read.** -/
def StaysReadable (count : Nat) : List String → Prop
  | [] => True
  | line :: rest => ¬ IsUnreadable count (selectionTokens line.toList) ∧
      (accepted? count line = none → StaysReadable count rest)

section

variable {count : Nat} {printed line : String} {lines : List String}

lemma parseSelection_eq_error_iff {fault : NumberFault} :
    parseSelection line count = .error fault ↔
      IsUnreadable count (selectionTokens line.toList) :=
  selectTokens_eq_error_iff (selectionTokens_ne_nil _)

lemma not_isUnreadable {r : Option (List Nat)} (h : parseSelection line count = .ok r) :
    ¬ IsUnreadable count (selectionTokens line.toList) := by
  intro hunreadable
  have herror : parseSelection line count = .error .unreadable :=
    parseSelection_eq_error_iff.mpr hunreadable
  rw [h] at herror
  cases herror

/-- **Lines are read up to the first that is accepted** exactly if no number up to there is
unreadable. -/
theorem readSelection_answeredBy_iff :
    AnsweredBy multiPrompt (accepted? count) selectionMessage printed lines
      (readSelection count printed lines) ↔ StaysReadable count lines := by
  induction lines generalizing printed with
  | nil => exact iff_of_true answeredBy_nil trivial
  | cons line rest ih =>
    rw [readSelection, StaysReadable]
    cases hparse : parseSelection line count with
    | error fault =>
      have hunreadable := parseSelection_eq_error_iff.mp hparse
      refine iff_of_false (fun h => ?_) fun h => h.1 hunreadable
      exact absurd (h.eq_endOfInput rfl) (by simp)
    | ok r =>
      have hreadable := not_isUnreadable hparse
      have hanswer : accepted? count line = r := by
        unfold accepted?
        rw [hparse]
        cases r <;> rfl
      cases r with
      | some positions =>
        refine iff_of_true (answeredBy_of_head hanswer) ⟨hreadable, fun h => ?_⟩
        rw [hanswer] at h
        cases h
      | none =>
        rw [answeredBy_cons_iff hanswer]
        exact ih.trans ⟨fun h => ⟨hreadable, fun _ => h⟩, fun h => h.2 hanswer⟩

/-- A line that is rejected is met with one of two messages. -/
lemma choiceMessage_of_rejected (h : chosen? count line = none) : choiceMessage count line ∈
    ["Please enter a valid integer number\n", "Please select one of the available options\n"] := by
  unfold chosen? at h
  unfold choiceMessage
  cases hchoice : readChoice count line with
  | ok n =>
    rw [hchoice] at h
    cases h
  | error message =>
    dsimp only
    unfold readChoice at hchoice
    split at hchoice
    · cases hchoice
    · dsimp only at hchoice
      split at hchoice
      · cases hchoice
        simp
      · split at hchoice <;> cases hchoice
        simp

/-- **Lines are read up to the first that names an option.** -/
theorem readNumber_answeredBy :
    AnsweredBy (singlePrompt count) (chosen? count) (choiceMessage count) printed lines
      (readNumber count printed lines) := by
  induction lines generalizing printed with
  | nil => exact answeredBy_nil
  | cons line rest ih =>
    rw [readNumber]
    cases hchoice : readChoice count line with
    | ok n =>
      have hanswer : chosen? count line = some n := by
        unfold chosen?
        rw [hchoice]
        rfl
      exact answeredBy_of_head hanswer
    | error message =>
      have hanswer : chosen? count line = none := by
        unfold chosen?
        rw [hchoice]
        rfl
      have hmessage : choiceMessage count line = message := by
        unfold choiceMessage
        rw [hchoice]
      rw [answeredBy_cons_iff hanswer, hmessage]
      exact ih

end

/-! ## The two questions -/

/-- **A question is asked**: it is printed with its options, and then answered by typed lines. -/
def Asked {α : Type} (prompt : String) (options : List String) (session : Session) (ask : String)
    (answer? : String → Option α) (message : String → String)
    (r : Except PromptFault α × Session) : Prop :=
  ∃ shown, printLines session (questionLines prompt options) = (shown, none) ∧
    AnsweredBy ask answer? message shown.printed session.lines r

section

variable {prompt : String} {options : List String} {session : Session}

lemma multiSelect_asked_iff (hne : options ≠ []) :
    Asked prompt options session multiPrompt (accepted? options.length) selectionMessage
        (multiSelect prompt options session) ↔
      (printLines session (questionLines prompt options)).2 = none ∧
        StaysReadable options.length session.lines := by
  have hlines := lines_printLines session (questionLines prompt options)
  unfold Asked multiSelect
  rw [if_neg (by simpa using hne)]
  cases hprint : printLines session (questionLines prompt options) with
  | mk shown fault =>
    cases fault with
    | some fault => simp
    | none =>
      rw [hprint] at hlines
      dsimp only at hlines ⊢
      rw [← hlines]
      simpa using readSelection_answeredBy_iff

lemma select_asked_iff :
    Asked prompt options session (singlePrompt options.length) (chosen? options.length)
        (choiceMessage options.length) (select prompt options session) ↔
      (printLines session (questionLines prompt options)).2 = none := by
  have hlines := lines_printLines session (questionLines prompt options)
  unfold Asked select
  cases hprint : printLines session (questionLines prompt options) with
  | mk shown fault =>
    cases fault with
    | some fault => simp
    | none =>
      rw [hprint] at hlines
      dsimp only at hlines ⊢
      rw [← hlines]
      simpa using readNumber_answeredBy

/-- What can be printed is printed: a text in the question is at fault only where it may begin a
closing tag. -/
lemma printLines_questionLines (hprompt : ¬ HoldsClosing prompt)
    (hoptions : ∀ option ∈ options, ¬ HoldsClosing option) :
    (printLines session (questionLines prompt options)).2 = none := by
  cases hprint : printLines session (questionLines prompt options) with
  | mk shown fault =>
    cases fault with
    | none => rfl
    | some fault =>
      obtain ⟨line, hline, hfault⟩ := exists_of_printLines hprint
      rcases holdsClosing_of_questionLines hline hfault with h | ⟨option, hmem, h⟩
      · exact absurd h hprompt
      · exact absurd h (hoptions option hmem)

end

end ThemeOverride.Console
