/-!
# Splitting and joining texts

Texts are split at a character and put together with a text between each two.

## Main definitions

* `ThemeOverride.Text.splitAt`: the pieces of a text between the occurrences of a character.
* `ThemeOverride.Text.join`: texts with a separator between each two.
* `ThemeOverride.Text.dropNewline`: a text without a line break at its end.
-/

namespace ThemeOverride.Text

/-- The pieces of a text between the occurrences of a character, empty ones included. -/
def splitAt (separator : Char) : List Char → List (List Char)
  | [] => [[]]
  | c :: rest =>
    if c == separator then [] :: splitAt separator rest
    else
      match splitAt separator rest with
      | [] => [[c]]
      | piece :: pieces => (c :: piece) :: pieces

/-- Texts with a separator between each two. -/
def join (separator : String) : List String → String
  | [] => ""
  | [s] => s
  | s :: rest => s ++ separator ++ join separator rest

/-- The pieces of a string between the occurrences of a character. -/
def pieces (separator : Char) (s : String) : List String :=
  (splitAt separator s.toList).map String.ofList

/-- A text without one line break at its end, and that line break. -/
def dropNewline (s : List Char) : List Char × List Char :=
  match s.reverse with
  | '\n' :: rest => (rest.reverse, ['\n'])
  | _ => (s, [])

/-- A text without a given ending. -/
def dropEnding? (ending : String) (s : List Char) : Option (List Char) :=
  if ending.toList.isSuffixOf s then some (s.take (s.length - ending.length)) else none

/-- Whether a text occurs in another. -/
def occursIn (part : List Char) : List Char → Bool
  | [] => part.isEmpty
  | c :: rest => part.isPrefixOf (c :: rest) || occursIn part rest

theorem splitAt_ne_nil (separator : Char) (s : List Char) : splitAt separator s ≠ [] := by
  induction s with
  | nil => simp [splitAt]
  | cons c rest ih =>
    unfold splitAt
    split
    · simp
    · split <;> simp

end ThemeOverride.Text
