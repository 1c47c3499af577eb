import ThemeOverride.Value.Json

/-!
# Values in TOML

Reads a table that is written in TOML: fields line by line, under headers that lead to tables and
lists of tables. Nothing may be given twice. What is written in one piece, as a list or a table
in brackets, cannot be added to; a table that dotted keys have made can be added to by further
ones up to the next header.

## Main definitions

* `ThemeOverride.Toml.readValue`: a value.
* `ThemeOverride.Toml.Document`: the table that is read, and what may not be given again.
* `ThemeOverride.Toml.read?`: the table of a text; nothing where the text is no TOML.
-/

namespace ThemeOverride.Toml

/-- A text without the blanks at its start. -/
def dropBlanks (s : List Char) : List Char := s.dropWhile fun c => c == ' ' || c == '\t'

/-- Whether a control character may not stand in a comment or text. -/
def isControl (c : Char) : Bool := (c.toNat < 0x20 && c != '\t') || c == '\x7f'

/-- A text behind a comment, if it begins with one. -/
def dropComment? (s : List Char) : Option (List Char) :=
  match s with
  | '#' :: rest =>
    let comment := rest.takeWhile (· != '\n')
    if comment.any isControl then none else some (rest.drop comment.length)
  | _ => some s

/-- A text without the blanks, line breaks and comments at its start, at most `fuel` lines. -/
def dropLines? (fuel : Nat) (s : List Char) : Option (List Char) :=
  match fuel with
  | 0 => some s
  | fuel + 1 =>
    let s := s.dropWhile fun c => c == ' ' || c == '\t' || c == '\n'
    match s with
    | '#' :: _ => (dropComment? s).bind (dropLines? fuel)
    | _ => some s

/-- A character by its number in hexadecimal digits. -/
def numberedCharacter? (digits : List Char) (count : Nat) : Option Char :=
  if digits.length != count then none
  else (Json.hexNumber? digits).bind fun n => if n.isValidChar then some (Char.ofNat n) else none

/-- What an escape behind a backslash stands for, and the text behind it. -/
def readEscape? (lines : Bool) (s : List Char) : Option (List Char × List Char) :=
  match s with
  | 'b' :: rest => some (['\x08'], rest)
  | 't' :: rest => some (['\t'], rest)
  | 'n' :: rest => some (['\n'], rest)
  | 'f' :: rest => some (['\x0c'], rest)
  | 'r' :: rest => some (['\r'], rest)
  | '\x22' :: rest => some (['\x22'], rest)
  | '\\' :: rest => some (['\\'], rest)
  | 'u' :: rest => (numberedCharacter? (rest.take 4) 4).map fun c => ([c], rest.drop 4)
  | 'U' :: rest => (numberedCharacter? (rest.take 8) 8).map fun c => ([c], rest.drop 8)
  | _ =>
    if !lines || dropBlanks s == s && s.head? != some '\n' then none
    else
      match dropBlanks s with
      | [] => some ([], [])
      | '\n' :: rest => some ([], rest.dropWhile fun c => c == ' ' || c == '\t' || c == '\n')
      | _ => none

/-- Reads the rest of a text between quotes, in at most `fuel` steps. Escapes have a meaning in
double quotes. A text over several lines ends at three quotes. -/
def readQuoted (fuel : Nat) (quote : Char) (lines : Bool) (s : List Char) :
    Option (List Char × List Char) :=
  match fuel with
  | 0 => none
  | fuel + 1 =>
    match s with
    | [] => none
    | c :: rest =>
      let more := fun (cs r : List Char) =>
        (readQuoted fuel quote lines r).map fun (ds, r) => (cs ++ ds, r)
      if c == quote then
        if !lines then some ([], rest)
        else if [quote, quote].isPrefixOf rest then
          let extra := ((rest.drop 2).takeWhile (· == quote)).take 2
          some (extra, rest.drop (2 + extra.length))
        else more [c] rest
      else if c == '\\' && quote == '\x22' then
        (readEscape? lines rest).bind fun (cs, r) => more cs r
      else if isControl c && !(lines && c == '\n') then none
      else more [c] rest

/-- Reads a text between quotes, over several lines only if that is allowed. -/
def readText? (mayHaveLines : Bool) (s : List Char) : Option (String × List Char) :=
  match s with
  | [] => none
  | quote :: rest =>
    let lines := mayHaveLines && [quote, quote].isPrefixOf rest
    let inside := if !lines then rest else
      match rest.drop 2 with
      | '\n' :: r => r
      | r => r
    (readQuoted (inside.length + 1) quote lines inside).map fun (cs, r) => (String.ofList cs, r)

/-- Whether a character may stand in a key without quotes. -/
def isBare (c : Char) : Bool := c.isAlphanum || c == '-' || c == '_'

/-- Reads one part of a key. -/
def readKeyPart? (s : List Char) : Option (String × List Char) :=
  match s with
  | '\x22' :: _ | '\x27' :: _ => readText? false s
  | _ =>
    let part := s.takeWhile isBare
    if part.isEmpty then none else some (String.ofList part, s.drop part.length)

/-- Reads a key with its parts, at most `fuel` of them. -/
def readKey? (fuel : Nat) (s : List Char) : Option (List String × List Char) :=
  match fuel with
  | 0 => none
  | fuel + 1 =>
    (readKeyPart? s).bind fun (part, r) =>
      match dropBlanks r with
      | '.' :: r => (readKey? fuel (dropBlanks r)).map fun (parts, r) => (part :: parts, r)
      | r => some ([part], r)

/-- The length of digits, between which single low lines may stand. -/
def digitsLength (isDigit : Char → Bool) : List Char → Nat
  | [] => 0
  | [c] => if isDigit c then 1 else 0
  | c :: '_' :: d :: rest =>
    if !isDigit c then 0 else if isDigit d then digitsLength isDigit (d :: rest) + 2 else 1
  | c :: rest => if isDigit c then digitsLength isDigit rest + 1 else 0

/-- The length of a number in another base behind its zero. -/
def basedLength : List Char → Nat
  | 'x' :: rest => behind (digitsLength (fun c => (Json.hexDigit? c).isSome) rest)
  | 'b' :: rest => behind (digitsLength (fun c => c == '0' || c == '1') rest)
  | 'o' :: rest => behind (digitsLength (fun c => '0' ≤ c && c ≤ '7') rest)
  | _ => 0
where
  /-- The length with the letter of the base, if there are digits. -/
  behind (n : Nat) : Nat := if n == 0 then 0 else n + 1

/-- The length of a fraction. -/
def fractionLength : List Char → Nat
  | '.' :: rest =>
    let n := digitsLength Char.isDigit rest
    if n == 0 then 0 else n + 1
  | _ => 0

/-- The length of an exponent. -/
def exponentLength : List Char → Nat
  | e :: rest =>
    let sign := match rest with
      | '+' :: _ | '-' :: _ => 1
      | _ => 0
    let n := digitsLength Char.isDigit (rest.drop sign)
    if (e == 'e' || e == 'E') && n != 0 then n + sign + 1 else 0
  | [] => 0

/-- Reads a number. -/
def readNumber? (s : List Char) : Option (Value × List Char) :=
  let sign := match s with
    | '+' :: _ | '-' :: _ => 1
    | _ => 0
  let u := s.drop sign
  let word := String.ofList (u.take 3)
  let whole := match u with
    | '0' :: rest => if sign == 0 then 1 + basedLength rest else 1
    | _ => digitsLength Char.isDigit u
  if whole == 0 then
    if word == "inf" || word == "nan" then some (.decimal word false, u.drop 3) else none
  else
    let based := whole != 1 && u.head? == some '0'
    let fraction := if based then 0 else fractionLength (u.drop whole)
    let more := if based then 0 else fraction + exponentLength (u.drop (whole + fraction))
    let written := s.take (sign + whole + more)
    let zero := (s.take (sign + whole + fraction)).all fun c => !('1' ≤ c && c ≤ '9')
    let rest := s.drop written.length
    if more != 0 then some (.decimal (String.ofList written) zero, rest)
    else if based then some (.opaqueScalar (String.ofList written), rest)
    else
      let n : Int := Json.digitsNumber (written.filter Char.isDigit)
      some (.int (if s.head? == some '-' then -n else n), rest)

/-- The number of a run of digits of a given length at the start of a text, within bounds, and
the text behind it. -/
def twoDigits? (low high : Nat) (s : List Char) : Option (Nat × List Char) :=
  match s with
  | a :: b :: rest =>
    let n := Json.digitsNumber [a, b]
    if a.isDigit && b.isDigit && low ≤ n && n ≤ high then some (n, rest) else none
  | _ => none

/-- The text behind a mark. -/
def behind? (mark : Char) (s : List Char) : Option (List Char) :=
  match s with
  | c :: rest => if c == mark then some rest else none
  | [] => none

/-- The text behind a time. -/
def afterTime? (s : List Char) : Option (List Char) := do
  let (_, s) ← twoDigits? 0 23 s
  let (_, s) ← twoDigits? 0 59 (← behind? ':' s)
  let (_, s) ← twoDigits? 0 59 (← behind? ':' s)
  match s with
  | '.' :: d :: rest => if d.isDigit then some (rest.dropWhile Char.isDigit) else some s
  | _ => some s

/-- The text behind a zone, if one follows. -/
def afterZone (s : List Char) : List Char :=
  match s with
  | 'Z' :: rest | 'z' :: rest => rest
  | sign :: rest =>
    if sign == '+' || sign == '-' then
      ((twoDigits? 0 23 rest).bind fun (_, r) =>
        (behind? ':' r).bind fun r => (twoDigits? 0 59 r).map (·.2)).getD s
    else s
  | [] => s

/-- The number of days of a month. -/
def daysOf (year month : Nat) : Nat :=
  if month == 2 then
    if year % 4 == 0 && (year % 100 != 0 || year % 400 == 0) then 29 else 28
  else if month == 4 || month == 6 || month == 9 || month == 11 then 30
  else 31

/-- Reads a date, perhaps with a time, or a time; a date that no calendar has is at fault. -/
def readMoment (s : List Char) : Option (Option (List Char)) :=
  let date := do
    let (century, s) ← twoDigits? 0 99 s
    let (year, s) ← twoDigits? 0 99 s
    let (month, s) ← twoDigits? 1 12 (← behind? '-' s)
    let (day, s) ← twoDigits? 1 31 (← behind? '-' s)
    return (century * 100 + year, month, day, s)
  match date with
  | some (year, month, day, rest) =>
    let behindTime := match rest with
      | c :: r => if c == 'T' || c == 't' || c == ' ' then (afterTime? r).map afterZone else none
      | [] => none
    some (if year == 0 || daysOf year month < day then none else some (behindTime.getD rest))
  | none => (afterTime? s).map some

/-- The fields with one changed at the end of a way of keys, making the tables on the way. The
last table of a list can be on the way if `throughLists` says so. -/
def changeAt? (throughLists : Bool) (change : List (Value × Value) → Option (List (Value × Value)))
    (way : List String) (fields : List (Value × Value)) : Option (List (Value × Value)) :=
  match way with
  | [] => change fields
  | k :: way =>
    match Value.lookup? k fields with
    | none => (changeAt? throughLists change way []).map fun t => Json.putField k (.table t) fields
    | some (.table inner) =>
      (changeAt? throughLists change way inner).map fun t => Json.putField k (.table t) fields
    | some (.list elements) =>
      match throughLists, elements.getLast? with
      | true, some (.table inner) =>
        (changeAt? throughLists change way inner).map fun t =>
          Json.putField k (.list (elements.dropLast ++ [.table t])) fields
      | _, _ => none
    | some _ => none

/-- Fields with a new one; nothing where there is one with this key. -/
def addField? (k : String) (v : Value) (fields : List (Value × Value)) :
    Option (List (Value × Value)) :=
  if (Value.lookup? k fields).isSome then none else some (fields ++ [(.text k, v)])

/-- Whether a value is written in one piece and holds others. -/
def isPiece : Value → Bool
  | .list _ | .table _ => true
  | _ => false

/-- Whether a way of keys leads to or into one of the given ones. -/
def isWithin (ways : List (List String)) (way : List String) : Bool := ways.any (·.isPrefixOf way)

mutual

/-- Reads a value, in at most `fuel` steps. -/
def readValue (fuel : Nat) (s : List Char) : Option (Value × List Char) :=
  match fuel with
  | 0 => none
  | fuel + 1 =>
    match s with
    | '\x22' :: _ | '\x27' :: _ => (readText? true s).map fun (t, r) => (.text t, r)
    | '[' :: rest =>
      (dropLines? (rest.length + 1) rest).bind fun r =>
        (readElements fuel r).map fun (vs, r) => (.list vs, r)
    | '\x7b' :: rest =>
      match dropBlanks rest with
      | '\x7d' :: r => some (.table [], r)
      | r => (readFields fuel [] [] r).map fun (fields, r) => (.table fields, r)
    | _ =>
      match Json.afterWord? "true" s, Json.afterWord? "false" s with
      | some r, _ => some (.bool true, r)
      | _, some r => some (.bool false, r)
      | none, none =>
        match readMoment s with
        | some (some r) => some (.opaqueScalar (String.ofList (s.take (s.length - r.length))), r)
        | some none => none
        | none => readNumber? s

/-- Reads the elements of a list up to its end, in at most `fuel` steps. -/
def readElements (fuel : Nat) (s : List Char) : Option (List Value × List Char) :=
  match fuel with
  | 0 => none
  | fuel + 1 =>
    match s with
    | ']' :: rest => some ([], rest)
    | _ =>
      match readValue fuel s with
      | none => none
      | some (v, r) =>
        match dropLines? (r.length + 1) r with
        | some (']' :: r) => some ([v], r)
        | some (',' :: r) =>
          (dropLines? (r.length + 1) r).bind fun r =>
            (readElements fuel r).map fun (vs, r) => (v :: vs, r)
        | _ => none

/-- Reads the fields of a table in brackets up to its end, in at most `fuel` steps, after those
read before. `closed` are the ways to those written in one piece. -/
def readFields (fuel : Nat) (closed : List (List String)) (before : List (Value × Value))
    (s : List Char) : Option (List (Value × Value) × List Char) :=
  match fuel with
  | 0 => none
  | fuel + 1 =>
    match readKey? (s.length + 1) s with
    | some (way, '=' :: r) =>
      match readValue fuel (dropBlanks r) with
      | none => none
      | some (v, r) =>
        if isWithin closed way then none
        else
          match changeAt? false (addField? (way.getLast?.getD "") v) way.dropLast before with
          | none => none
          | some fields =>
            match dropBlanks r with
            | '\x7d' :: r => some (fields, r)
            | ',' :: r =>
              readFields fuel (if isPiece v then way :: closed else closed) fields (dropBlanks r)
            | _ => none
    | _ => none

end

/-- The table that is read, the way of the header in force, the ways that are closed, those that
have been given by headers or dotted keys, and those that will be at the next header. -/
structure Document where
  fields : List (Value × Value) := []
  header : List String := []
  closed : List (List String) := []
  given : List (List String) := []
  pending : List (List String) := []

namespace Document

/-- Begins the table at a way. -/
def beginTable? (d : Document) (way : List String) : Option Document :=
  let given := d.pending ++ d.given
  if given.contains way || isWithin d.closed way then none
  else
    (changeAt? true some way d.fields).map fun fields =>
      { d with fields := fields, header := way, given := way :: given, pending := [] }

/-- Begins another table of the list at a way. -/
def beginElement? (d : Document) (way : List String) : Option Document :=
  if isWithin d.closed way then none
  else
    let last := way.getLast?.getD ""
    let append := fun (fields : List (Value × Value)) =>
      match Value.lookup? last fields with
      | none => some (fields ++ [(.text last, .list [.table []])])
      | some (.list elements) =>
        some (Json.putField last (.list (elements ++ [.table []])) fields)
      | some _ => none
    (changeAt? true append way.dropLast d.fields).map fun fields =>
      { fields := fields
        header := way
        closed := d.closed.filter fun w => !(way.isPrefixOf w)
        given := way :: (d.pending ++ d.given).filter fun w => !(way.isPrefixOf w)
        pending := [] }

/-- Adds a field at a way from the header in force. -/
def add? (d : Document) (way : List String) (v : Value) : Option Document :=
  let between := (List.range (way.length - 1)).map fun n => d.header ++ way.take (n + 1)
  if between.any d.given.contains || isWithin d.closed (d.header ++ way.dropLast) then none
  else
    (changeAt? true (addField? (way.getLast?.getD "") v) (d.header ++ way.dropLast) d.fields).map
      fun fields =>
        { d with
          fields := fields
          pending := between ++ d.pending
          closed := if isPiece v then (d.header ++ way) :: d.closed else d.closed }

/-- Reads a statement: a header or a field. -/
def readStatement? (d : Document) (s : List Char) : Option (Document × List Char) :=
  match s with
  | '[' :: '[' :: rest =>
    match readKey? (rest.length + 1) (dropBlanks rest) with
    | some (way, ']' :: ']' :: r) => (d.beginElement? way).map (·, r)
    | _ => none
  | '[' :: rest =>
    match readKey? (rest.length + 1) (dropBlanks rest) with
    | some (way, ']' :: r) => (d.beginTable? way).map (·, r)
    | _ => none
  | _ =>
    match readKey? (s.length + 1) s with
    | some (way, '=' :: r) =>
      (readValue (r.length + 2) (dropBlanks r)).bind fun (v, r) => (d.add? way v).map (·, r)
    | _ => none

/-- Reads statements, each on a line of its own, in at most `fuel` lines. -/
def readLines? (fuel : Nat) (d : Document) (s : List Char) : Option Document :=
  match fuel with
  | 0 => none
  | fuel + 1 =>
    let s := dropBlanks s
    match s with
    | [] => some d
    | '\n' :: rest => readLines? fuel d rest
    | c :: _ =>
      (if c == '#' then some (d, s) else d.readStatement? s).bind fun (d, r) =>
        match dropComment? (dropBlanks r) with
        | some [] => some d
        | some ('\n' :: r) => readLines? fuel d r
        | _ => none

end Document

/-- The table of a text in TOML; nothing where the text is no TOML. -/
def read? (s : String) : Option Value :=
  (Document.readLines? (s.length + 2) {} s.toList).map fun d => .table d.fields

end ThemeOverride.Toml
