import ThemeOverride.Script.Terminator

/-!
# Scanners and tests

The scanners of tokens and the tests of what follows, by name. A grammar names them instead of
holding functions, so that it is data, and what it reads can be found out without a text.

## Main definitions

* `ThemeOverride.Script.Scanner`: the scanners of tokens.
* `ThemeOverride.Script.Scanner.length`: the length of what a scanner finds.
* `ThemeOverride.Script.Test`: the tests of what follows.
* `ThemeOverride.Script.Test.holds`: whether a text passes a test.
-/

namespace ThemeOverride.Script

/-- A scanner of tokens. -/
inductive Scanner where
  | keyword (w : String)
  | word
  | nameExcept (words : List String)
  | nameAmong (words : List String)
  | privateName
  | mark (m : String)
  | operator (o : String)
  | operatorAmong (os : List String)
  | number
  | comment
  | stringFragment (quote : Char)
  | escape
  | templateFragment
  | regexPattern
  | regexFlags
  /-- An implied terminator. -/
  | implied (place : Ending)
  | hashBang
  /-- The end of the text. -/
  | finish
  | markupName
  | attributeFragment (quote : Char)
  | characterReference
  | markupText
  deriving DecidableEq, Repr

/-- The length of what a scanner finds at the start of a text. -/
def Scanner.length : Scanner → List Char → Option Nat
  | keyword w => Script.keyword w
  | word => wordLength
  | nameExcept words => Script.nameExcept words
  | nameAmong words => Script.nameAmong words
  | privateName => privateNameLength
  | mark m => Script.mark m
  | operator o => Script.operator o
  | operatorAmong os => Script.operatorAmong os
  | number => numberLength
  | comment => commentLength
  | stringFragment quote => stringFragmentLength quote
  | escape => escapeLength
  | templateFragment => templateFragmentLength
  | regexPattern => regexPatternLength
  | regexFlags => runOf fun c => 'a' ≤ c && c ≤ 'z'
  | implied place => fun s => if impliesTerminator place s then some 0 else none
  | hashBang => fun s =>
    if "#!".toList.isPrefixOf s then some (s.takeWhile (· != '\n')).length else none
  | finish => fun s => if s.isEmpty then some 0 else none
  | markupName => markupNameLength
  | attributeFragment quote => fun s =>
    match attributeFragmentLength quote s with
    | 0 => none
    | n => some n
  | characterReference => characterReferenceLength
  | markupText => markupTextLength

/-- A test of what follows. -/
inductive Test where
  /-- An implied terminator does not end the statement. -/
  | goesOn (place : Ending)
  /-- Type arguments may end an operand, at an implied terminator too if there may be one. -/
  | endsOperand (terminable : Bool)
  /-- The first value of a condition may follow its mark. -/
  | beginsValue
  deriving DecidableEq, Repr

/-- The marks that an operand may begin with. -/
def operandMarks : List Char :=
  ['(', '[', '\x7b', '<', '+', '-', '~', '\x60', '\x27', '\x22', '/', '@', '#', '\\']

/-- Whether type arguments may end an operand before the text: nothing that begins an operand
follows. -/
def endsOperand (s : List Char) : Bool :=
  match (comments s).2.2 with
  | [] => true
  | c :: rest =>
    if isNameStart c then
      ["as", "satisfies", "in", "instanceof", "of", "implements", "extends"].any fun w =>
        (keyword w (c :: rest)).isSome
    else if c == '!' then rest.head? == some '='
    else if c == '.' then !(rest.head?.any Char.isDigit)
    else !(operandMarks.contains c || c.isDigit)

/-- Whether the first value of a condition may follow its mark. -/
def beginsValue (s : List Char) : Bool :=
  match s.dropWhile isSpace with
  | '.' :: c :: _ => c.isDigit
  | c :: _ => !(c == ':' || c == ')' || c == ',')
  | [] => true

/-- Whether a text passes a test. -/
def Test.holds : Test → List Char → Bool
  | goesOn place => fun s => !endsHere place s
  | endsOperand terminable => fun s =>
    Script.endsOperand s || (terminable && endsHere ⟨true, false⟩ s)
  | beginsValue => Script.beginsValue

end ThemeOverride.Script
