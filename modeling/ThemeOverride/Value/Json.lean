import ThemeOverride.Value.Basic

/-!
# Values in JSON

Reads a value that is written in JSON. Blanks may stand between any two tokens. A text may not
hold control characters as they stand. Of the values that a table gives one key, the last counts.
Besides JSON's own numbers, infinities and the absence of a number have names.

## Main definitions

* `ThemeOverride.Json.read?`: the value of a text; nothing where the text is no JSON.
-/

namespace ThemeOverride.Json

/-- A text without the blanks at its start. -/
def dropBlanks (s : List Char) : List Char :=
  s.dropWhile fun c => c == ' ' || c == '\t' || c == '\n' || c == '\r'

/-- What follows a word at the start of a text. -/
def afterWord? (word : String) (s : List Char) : Option (List Char) :=
  if word.toList.isPrefixOf s then some (s.drop word.length) else none

/-- The value of a hexadecimal digit. -/
def hexDigit? (c : Char) : Option Nat :=
  if '0' ≤ c && c ≤ '9' then some (c.toNat - '0'.toNat)
  else if 'a' ≤ c && c ≤ 'f' then some (c.toNat - 'a'.toNat + 10)
  else if 'A' ≤ c && c ≤ 'F' then some (c.toNat - 'A'.toNat + 10)
  else none

/-- The number of hexadecimal digits. -/
def hexNumber? (digits : List Char) : Option Nat :=
  digits.foldl (fun n c => n.bind fun n => (hexDigit? c).map (n * 16 + ·)) (some 0)

/-- The character that an escape of one letter stands for. -/
def simpleEscape? : Char → Option Char
  | '\x22' => some '\x22'
  | '\\' => some '\\'
  | '/' => some '/'
  | 'b' => some '\x08'
  | 'f' => some '\x0c'
  | 'n' => some '\n'
  | 'r' => some '\r'
  | 't' => some '\t'
  | _ => none

/-- The character of a number in four digits, and of a second one behind it where the first is
the upper half of a character. A half on its own has no character and is replaced. -/
def joinHalves (high : Nat) (low? : Option Nat) : Char × Bool :=
  match low? with
  | some low =>
    if 0xD800 ≤ high && high < 0xDC00 && 0xDC00 ≤ low && low < 0xE000 then
      (Char.ofNat (0x10000 + (high - 0xD800) * 0x400 + (low - 0xDC00)), true)
    else (if 0xD800 ≤ high && high < 0xE000 then '\uFFFD' else Char.ofNat high, false)
  | none => (if 0xD800 ≤ high && high < 0xE000 then '\uFFFD' else Char.ofNat high, false)

/-- The number that an escape in four digits gives. -/
def numberEscape? : List Char → Option Nat
  | '\\' :: 'u' :: a :: b :: c :: d :: _ => hexNumber? [a, b, c, d]
  | _ => none

/-- Reads the rest of a text up to its closing quote, in at most `fuel` steps. -/
def readText (fuel : Nat) (s : List Char) : Option (List Char × List Char) :=
  match fuel with
  | 0 => none
  | fuel + 1 =>
    match s with
    | [] => none
    | '\x22' :: rest => some ([], rest)
    | '\\' :: 'u' :: rest =>
      (numberEscape? s).bind fun high =>
        let (c, joined) := joinHalves high (numberEscape? (rest.drop 4))
        (readText fuel (rest.drop (if joined then 10 else 4))).map fun (cs, r) => (c :: cs, r)
    | '\\' :: e :: rest =>
      (simpleEscape? e).bind fun c => (readText fuel rest).map fun (cs, r) => (c :: cs, r)
    | c :: rest =>
      if c.toNat < 0x20 || c == '\\' then none
      else (readText fuel rest).map fun (cs, r) => (c :: cs, r)

/-- The digits at the start of a text. -/
def digitsOf (s : List Char) : List Char := s.takeWhile Char.isDigit

/-- The length of a fraction at the start of a text. -/
def fractionLength : List Char → Nat
  | '.' :: rest => if (digitsOf rest).isEmpty then 0 else (digitsOf rest).length + 1
  | _ => 0

/-- The length of an exponent at the start of a text. -/
def exponentLength : List Char → Nat
  | e :: rest =>
    if !(e == 'e' || e == 'E') then 0
    else
      let sign := match rest with
        | '+' :: _ | '-' :: _ => 1
        | _ => 0
      let digits := digitsOf (rest.drop sign)
      if digits.isEmpty then 0 else digits.length + sign + 1
  | [] => 0

/-- The number that digits stand for. -/
def digitsNumber (digits : List Char) : Nat :=
  digits.foldl (fun n c => n * 10 + (c.toNat - '0'.toNat)) 0

/-- Reads a number without a sign. -/
def readNumber (negative : Bool) (s : List Char) : Option (Value × List Char) :=
  let digits := match s with
    | '0' :: _ => ['0']
    | _ => digitsOf s
  if digits.isEmpty then none
  else
    let afterDigits := s.drop digits.length
    let fraction := fractionLength afterDigits
    let more := fraction + exponentLength (afterDigits.drop fraction)
    let n := digitsNumber digits
    let rest := afterDigits.drop more
    if more == 0 then some (.int (if negative then -(n : Int) else n), rest)
    else
      let written := s.take (digits.length + more)
      let isZero := (s.take (digits.length + fraction)).all fun c => c == '0' || c == '.'
      some (.decimal (String.ofList (if negative then '-' :: written else written)) isZero, rest)

/-- The words that are values. -/
def words : List (String × Value) :=
  [("null", .null), ("true", .bool true), ("false", .bool false), ("NaN", .decimal "nan" false),
   ("Infinity", .decimal "inf" false), ("-Infinity", .decimal "-inf" false)]

/-- Reads a word that is a value, or a number. -/
def readScalar (s : List Char) : Option (Value × List Char) :=
  match words.findSome? fun (word, v) => (afterWord? word s).map (v, ·) with
  | some found => some found
  | none =>
    match s with
    | '-' :: rest => readNumber true rest
    | _ => readNumber false s

/-- Fields with one changed, or added at the end. -/
def putField (key : String) (v : Value) : List (Value × Value) → List (Value × Value)
  | [] => [(.text key, v)]
  | (.text k, w) :: rest =>
    if k == key then (.text k, v) :: rest else (.text k, w) :: putField key v rest
  | field :: rest => field :: putField key v rest

mutual

/-- Reads a value, in at most `fuel` steps. -/
def readValue (fuel : Nat) (s : List Char) : Option (Value × List Char) :=
  match fuel with
  | 0 => none
  | fuel + 1 =>
    match s with
    | '\x22' :: rest =>
      (readText (rest.length + 1) rest).map fun (cs, r) => (.text (String.ofList cs), r)
    | '[' :: rest =>
      match dropBlanks rest with
      | ']' :: r => some (.list [], r)
      | r => (readElements fuel r).map fun (vs, r) => (.list vs, r)
    | '\x7b' :: rest =>
      match dropBlanks rest with
      | '\x7d' :: r => some (.table [], r)
      | r => (readFields fuel [] r).map fun (fields, r) => (.table fields, r)
    | _ => readScalar s

/-- Reads the elements of a list up to its end, in at most `fuel` steps. -/
def readElements (fuel : Nat) (s : List Char) : Option (List Value × List Char) :=
  match fuel with
  | 0 => none
  | fuel + 1 =>
    match readValue fuel s with
    | none => none
    | some (v, r) =>
      match dropBlanks r with
      | ']' :: r => some ([v], r)
      | ',' :: r => (readElements fuel (dropBlanks r)).map fun (vs, r) => (v :: vs, r)
      | _ => none

/-- Reads the fields of a table up to its end, in at most `fuel` steps, after those read
before. -/
def readFields (fuel : Nat) (before : List (Value × Value)) (s : List Char) :
    Option (List (Value × Value) × List Char) :=
  match fuel with
  | 0 => none
  | fuel + 1 =>
    match s with
    | '\x22' :: rest =>
      match readText (rest.length + 1) rest with
      | none => none
      | some (key, r) =>
        match dropBlanks r with
        | ':' :: r =>
          match readValue fuel (dropBlanks r) with
          | none => none
          | some (v, r) =>
            let fields := putField (String.ofList key) v before
            match dropBlanks r with
            | '\x7d' :: r => some (fields, r)
            | ',' :: r => readFields fuel fields (dropBlanks r)
            | _ => none
        | _ => none
    | _ => none

end

/-- The value of a text in JSON; nothing where the text is no JSON. -/
def read? (s : String) : Option Value :=
  match readValue (s.length + 1) (dropBlanks s.toList) with
  | some (v, rest) => if (dropBlanks rest).isEmpty then some v else none
  | none => none

end ThemeOverride.Json
