import ThemeOverride.Text.Character

/-!
# Typed selections

A selection is typed as numbers between blanks or commas, counted from one. It selects the
options with these numbers, each once and in the order of the options.

## Main definitions

* `ThemeOverride.Console.numberOf?`: the value of a number typed in decimal digits.
* `ThemeOverride.Console.selectionTokens`: the pieces of what was typed.
* `ThemeOverride.Console.parseSelection`: the positions selected.
-/

namespace ThemeOverride.Console

/-- What a typed number cannot be read as: it holds a digit that is not decimal, or too many
digits. -/
inductive NumberFault where
  | unreadable
  deriving DecidableEq, Repr

/-- The most digits that a number is read from. -/
def mostDigits : Nat := 4300

/-- The number that decimal digits stand for, continuing a number. -/
def digitsValue (value : Nat) : List Char → Option Nat
  | [] => some value
  | c :: rest => (Text.decimalValue? c).bind fun d => digitsValue (value * 10 + d) rest

/-- The value of a number typed in digits of any script. -/
def numberOf? (token : List Char) : Option Nat :=
  if token.isEmpty || decide (mostDigits < token.length) then none else digitsValue 0 token

/-- Whether a character stands between numbers. -/
def isBetween (c : Char) : Bool := Text.isBlank c || c == ','

/-- The pieces of a text between the characters that stand between numbers. -/
def selectionTokens : List Char → List (List Char)
  | [] => []
  | c :: rest =>
    if isBetween c then selectionTokens rest
    else
      match rest with
      | [] => [[c]]
      | d :: _ =>
        if isBetween d then [c] :: selectionTokens rest
        else
          match selectionTokens rest with
          | [] => [[c]]
          | token :: tokens => (c :: token) :: tokens

/-- Puts a position into an increasing list of positions, once. -/
def insertPosition (n : Nat) : List Nat → List Nat
  | [] => [n]
  | m :: rest =>
    if n < m then n :: m :: rest
    else if n == m then m :: rest
    else m :: insertPosition n rest

/-- The positions that tokens select among `count` options; nothing where a token is no number
of an option. -/
def selectTokens (count : Int) : List (List Char) → Except NumberFault (Option (List Nat))
  | [] => .ok (some [])
  | token :: rest =>
    if !(token.all Text.isDigit) then .ok none
    else
      match numberOf? token with
      | none => .error .unreadable
      | some n =>
        if n == 0 || decide (count < (n : Int)) then .ok none
        else (selectTokens count rest).map fun r => r.map (insertPosition (n - 1))

/-- The positions that a typed answer selects among `count` options, counted from zero; nothing
where a token is no number of an option. -/
def parseSelection (answer : String) (count : Int) : Except NumberFault (Option (List Nat)) :=
  selectTokens count (selectionTokens answer.toList)

end ThemeOverride.Console
