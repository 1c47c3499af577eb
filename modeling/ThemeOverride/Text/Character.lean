import ThemeOverride.Text.CaseTable
import ThemeOverride.Text.LetterTable

/-!
# Classes and case of characters

Character classes and case mappings of the Unicode standard. ASCII is decided first, by core's
functions; the tables decide the rest.

## Main definitions

* `ThemeOverride.Text.upper`, `title`, `lower`: the full case mappings, one character to a list.
* `ThemeOverride.Text.isUpper`, `isWord`, `isBlank`, `isDigit`: character classes.
* `ThemeOverride.Text.decimalValue?`: the value of a decimal digit of any script.

## Main results

* `ThemeOverride.Text.upper_of_ascii`, `isUpper_of_ascii`: on ASCII these are core's functions.
-/

namespace ThemeOverride.Text

/-- Whether the run `first, first + step, …` up to `last` holds a code point. -/
def inRun (c : Nat) : Nat × Nat × Nat → Bool
  | (first, last, step) => decide (first ≤ c) && decide (c ≤ last) && (c - first) % step == 0

/-- The image of a code point under the first case run that holds it. -/
def mapRuns (c : Nat) : List (Nat × Nat × Nat × Int) → Option Char
  | [] => none
  | (first, last, step, distance) :: rest =>
    if inRun c (first, last, step) then some (Char.ofNat ((c : Int) + distance).toNat)
    else mapRuns c rest

/-- The characters that a table of expansions lists for a code point. -/
def expand? (c : Nat) (table : List (Nat × List Nat)) : Option (List Char) :=
  (table.lookup c).map (·.map Char.ofNat)

/-- The full upper-case form of a character. -/
def upper (c : Char) : List Char :=
  if c.toNat < 128 then [c.toUpper]
  else (expand? c.toNat upperExpansions).getD [(mapRuns c.toNat upperRuns).getD c]

/-- The full title-case form of a character, which differs from the upper-case form for
ligatures and digraphs. -/
def title (c : Char) : List Char :=
  if c.toNat < 128 then [c.toUpper] else (expand? c.toNat titleExceptions).getD (upper c)

/-- The full lower-case form of a character. -/
def lower (c : Char) : List Char :=
  if c.toNat < 128 then [c.toLower]
  else (expand? c.toNat lowerExpansions).getD [(mapRuns c.toNat lowerRuns).getD c]

/-- Whether a character has the property `Uppercase`. -/
def isUpper (c : Char) : Bool :=
  if c.toNat < 128 then c.isUpper else uppercaseRuns.any (inRun c.toNat)

/-- Whether a character is a letter, has a numeric value, or is the low line. -/
def isWord (c : Char) : Bool :=
  if c.toNat < 128 then c.isAlphanum || c == '_' else alphanumericRuns.any (inRun c.toNat)

/-- Whether a character is a blank: white space or a separator of the control characters. -/
def isBlank (c : Char) : Bool :=
  if c.toNat < 128 then c == ' ' || (9 ≤ c.toNat && c.toNat ≤ 13) || (28 ≤ c.toNat && c.toNat ≤ 31)
  else blankRuns.any (inRun c.toNat)

/-- The value of a decimal digit, of whatever script. -/
def decimalValue? (c : Char) : Option Nat :=
  if c.toNat < 128 then if c.isDigit then some (c.toNat - 48) else none
  else (decimalZeros.find? fun zero => decide (zero ≤ c.toNat) && decide (c.toNat ≤ zero + 9)).map
    (c.toNat - ·)

/-- Whether a character is a digit: a decimal digit, or one such as a superscript two. -/
def isDigit (c : Char) : Bool :=
  (decimalValue? c).isSome || digitRuns.any (inRun c.toNat)

/-- A text without the blanks at its start. -/
def dropBlanks (s : List Char) : List Char := s.dropWhile isBlank

/-- A text without the blanks at either end. -/
def strip (s : List Char) : List Char := (dropBlanks (dropBlanks s).reverse).reverse

/-- A text with its first character in title case and the others in lower case. A sigma that
ends a word has a form of its own. -/
def capitalizeWord : List Char → List Char
  | [] => []
  | c :: rest => title c ++ lowerTail [c] rest
where
  /-- Lower-cases the rest of a text; `before` holds the characters passed, the last first. -/
  lowerTail (before : List Char) : List Char → List Char
    | [] => []
    | c :: rest =>
      (if c == 'Σ' && (before.head?.any isWord) && !(rest.head?.any isWord) then ['ς'] else lower c)
        ++ lowerTail (c :: before) rest

theorem upper_of_ascii {c : Char} (h : c.toNat < 128) : upper c = [c.toUpper] := by
  simp [upper, h]

theorem isUpper_of_ascii {c : Char} (h : c.toNat < 128) : isUpper c = c.isUpper := by
  simp [isUpper, h]

end ThemeOverride.Text
