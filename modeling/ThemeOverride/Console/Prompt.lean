import ThemeOverride.Console.Markup
import ThemeOverride.Console.Selection
import ThemeOverride.Override.Resource

/-!
# Prompts on the console

Questions are printed with their options, one on each line, and answered by a typed line. A line
that is no answer is met with a message, and the question is asked again until the input ends.

## Main definitions

* `ThemeOverride.Console.Session`: what was printed, and the lines still to be read.
* `ThemeOverride.Console.multiSelect`: a question for any number of options.
* `ThemeOverride.Console.select`: a question for one option.
-/

namespace ThemeOverride.Console

/-- Why a question has no answer. -/
inductive PromptFault where
  /-- The input ended. -/
  | endOfInput
  /-- A typed number cannot be read. -/
  | number (fault : NumberFault)
  /-- A printed text holds a closing tag that closes nothing. -/
  | markup (fault : MarkupFault)
  deriving DecidableEq, Repr

/-- What was printed so far, and the lines still to be read. -/
structure Session where
  printed : String := ""
  lines : List String := []
  deriving DecidableEq, Repr

/-- The lines of a typed text. -/
def typedLines (s : String) : List String :=
  let lines := Text.pieces '\n' s
  if lines.getLast? == some "" then lines.dropLast else lines

namespace Session

/-- Prints a text as it stands. -/
def write (session : Session) (s : String) : Session :=
  { session with printed := session.printed ++ s }

end Session

/-- Prints texts with markup, one on each line, up to the first that is at fault. -/
def printLines (session : Session) : List String → Session × Option MarkupFault
  | [] => (session, none)
  | s :: rest =>
    match plainText s with
    | .error fault => (session, some fault)
    | .ok shown => printLines (session.write (shown ++ "\n")) rest

/-- The question and its options as they are printed, with their numbers from `n` on. -/
def optionLines (n : Nat) : List String → List String
  | [] => []
  | option :: rest =>
    ("  [cyan]" ++ toString n ++ "[/cyan]) " ++ option) :: optionLines (n + 1) rest

/-- The lines of a question with its options. -/
def questionLines (prompt : String) (options : List String) : List String :=
  ("[bold]" ++ prompt ++ "[/bold]") :: optionLines 1 options

/-- What asks for any number of options. -/
def multiPrompt : String := "Numbers separated by commas (leave empty for none): "

/-- Reads lines until one selects options among `count`, answering each other line with a
message. -/
def readSelection (count : Nat) (printed : String) :
    List String → Except PromptFault (List Nat) × Session
  | [] => (.error .endOfInput, ⟨printed ++ multiPrompt, []⟩)
  | line :: rest =>
    let printed := printed ++ multiPrompt
    match parseSelection line count with
    | .error fault => (.error (.number fault), ⟨printed, rest⟩)
    | .ok (some positions) => (.ok positions, ⟨printed, rest⟩)
    | .ok none => readSelection count (printed ++ "Please enter numbers from the list.\n") rest

/-- Asks for any number of options; the answer is their positions. Without options nothing is
asked. -/
def multiSelect (prompt : String) (options : List String) (session : Session) :
    Except PromptFault (List Nat) × Session :=
  if options.isEmpty then (.ok [], session)
  else
    match printLines session (questionLines prompt options) with
    | (session, some fault) => (.error (.markup fault), session)
    | (session, none) => readSelection options.length session.printed session.lines

/-- Whether digits with single low lines between them follow. -/
def isSpacedNumber : List Char → Bool
  | [] => false
  | [c] => (Text.decimalValue? c).isSome
  | c :: '_' :: rest => (Text.decimalValue? c).isSome && isSpacedNumber rest
  | c :: rest => (Text.decimalValue? c).isSome && isSpacedNumber rest

/-- Whether a text is a number, perhaps with a sign, that is not too long to read. -/
def isInteger (s : List Char) : Bool :=
  let digits := match s with
    | '+' :: rest => rest
    | '-' :: rest => rest
    | _ => s
  isSpacedNumber digits && decide ((digits.filter (· != '_')).length ≤ mostDigits)

/-- What asks for one option. -/
def singlePrompt (count : Nat) : String :=
  "Number [" ++ Text.join "/" ((List.range count).map fun n => toString (n + 1)) ++ "] (1): "

/-- The position of the option that a line names by its number; an empty line names the first.
Otherwise the message that answers the line. -/
def readChoice (count : Nat) (line : String) : Except String Nat :=
  if line == "" then .ok 0
  else
    let answer := Text.strip line.toList
    if !isInteger answer then .error "Please enter a valid integer number\n"
    else
      match (List.range count).find? fun n => (toString (n + 1)).toList == answer with
      | some n => .ok n
      | none => .error "Please select one of the available options\n"

/-- Reads lines until one names an option among `count`, answering each other line with a
message. -/
def readNumber (count : Nat) (printed : String) :
    List String → Except PromptFault Nat × Session
  | [] => (.error .endOfInput, ⟨printed ++ singlePrompt count, []⟩)
  | line :: rest =>
    let printed := printed ++ singlePrompt count
    match readChoice count line with
    | .ok n => (.ok n, ⟨printed, rest⟩)
    | .error message => readNumber count (printed ++ message) rest

/-- Asks for one option; the answer is its position. -/
def select (prompt : String) (options : List String) (session : Session) :
    Except PromptFault Nat × Session :=
  match printLines session (questionLines prompt options) with
  | (session, some fault) => (.error (.markup fault), session)
  | (session, none) => readNumber options.length session.printed session.lines

/-- What asks how styles are treated. -/
def stylePrompt : String := "What would you like to do with styles?"

/-- Asks how styles are treated. -/
def selectStyle (session : Session) : Except PromptFault StyleOption × Session :=
  match select stylePrompt (StyleOption.all.map (·.description)) session with
  | (.ok n, session) => (.ok (StyleOption.all[n]?.getD .keep), session)
  | (.error fault, session) => (.error fault, session)

/-- What asks for the exports of a file to extend. -/
def exportPrompt (fileName : String) : String := "Choose things to extend in " ++ fileName

end ThemeOverride.Console
