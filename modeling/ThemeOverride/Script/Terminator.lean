import ThemeOverride.Script.Lexeme

/-!
# Implied terminators

A statement may end without a semicolon: at the end of the text, before a closing brace, or at a
line break after which the statement cannot go on. What may follow the break depends on whether
an operator could stand there and on whether a function's head has just ended.

## Main definitions

* `ThemeOverride.Script.Ending`: what the place of a possible terminator is like.
* `ThemeOverride.Script.impliesTerminator`: whether a terminator is implied at a place.
-/

namespace ThemeOverride.Script

/-- The place of a possible terminator: whether a complete expression stands before it, which an
operator could continue, and whether it could be the head of a function, which a body could
continue. -/
structure Ending where
  operand : Bool
  functionHead : Bool := false
  deriving DecidableEq, Repr

/-- The text after white space and comments; nothing where a comment or a slash breaks off. -/
def skipSpacesAndComments (fuel : Nat) (s : List Char) : Option (List Char) :=
  match fuel with
  | 0 => some s
  | fuel + 1 =>
    let rest := s.dropWhile isSpace
    match rest with
    | '/' :: '/' :: more =>
      skipSpacesAndComments fuel
        (more.dropWhile fun c => c != '\n' && c != '\u2028' && c != '\u2029')
    | '/' :: '*' :: more =>
      match blockCommentRest more with
      | none => none
      | some n => skipSpacesAndComments fuel (more.drop n)
    | '/' :: _ => none
    | _ => some rest

/-- Whether a word other than a prefix of an operator word begins the text. -/
def beginsOtherWord (s : List Char) : Bool :=
  match s with
  | 'i' :: 'n' :: rest =>
    match rest with
    | [] => false
    | c :: _ =>
      if !c.isAlpha then false
      else if "stanceof".toList.isPrefixOf rest then
        (rest.drop 8).head?.any Char.isAlpha
      else true
  | _ => true

/-- Whether a statement cannot go on with the text after a line break. -/
def cannotContinue (place : Ending) (s : List Char) : Bool :=
  match s with
  | [] => true
  | c :: rest =>
    if "`,.;*%><=?^|&/:".toList.contains c then false
    else if c == '\x7b' then !place.functionHead
    else if c == '(' || c == '[' then !place.operand
    else if c == '+' then rest.head? == some '+'
    else if c == '-' then rest.head? == some '-'
    else if c == '!' then rest.head? != some '='
    else if c == 'i' then beginsOtherWord s
    else true

/-- Whether a terminator is implied before the text. Comments on the same line are not looked
through. -/
def impliesTerminator (place : Ending) (s : List Char) : Bool :=
  match s with
  | [] => true
  | c :: rest =>
    if c == '\x7d' then
      if (rest.dropWhile isSpace).head? == some ':' then place.operand else true
    else if !(isSpace c) then false
    else if c == '\n' then
      match skipSpacesAndComments (rest.length + 1) rest with
      | none => false
      | some after => cannotContinue place after
    else impliesTerminator place rest

/-- Whether a terminator is implied before the text or after the comments it begins with. -/
def impliesTerminatorSoon (place : Ending) (fuel : Nat) (s : List Char) : Bool :=
  match fuel with
  | 0 => impliesTerminator place s
  | fuel + 1 =>
    impliesTerminator place s ||
      let rest := (blanks s).2
      match commentLength rest with
      | none => false
      | some n => impliesTerminatorSoon place fuel (rest.drop n)

/-- Whether a statement ends before the text. -/
def endsHere (place : Ending) (s : List Char) : Bool := impliesTerminatorSoon place s.length s

end ThemeOverride.Script
