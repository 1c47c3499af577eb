import ThemeOverride.Value.Yaml.Node

/-!
# Values in YAML

Reads a value that is written in YAML. A plain scalar means a truth value, a number, a date or
nothing if it is written like one, and a text otherwise; scalars between quotes and blocks mean
texts. A tag states the meaning of a value.

## Main definitions

* `ThemeOverride.Yaml.scalarValue`: the meaning of a plain scalar.
* `ThemeOverride.Yaml.valueOf`: the value of a tree.
* `ThemeOverride.Yaml.read`: the value of a text, or the stage at which it is at fault.
-/

namespace ThemeOverride.Yaml

/-- The words that mean nothing. -/
def nullWords : List String := ["", "~", "null", "Null", "NULL"]

/-- The words that mean yes. -/
def yesWords : List String := ["yes", "Yes", "YES", "true", "True", "TRUE", "on", "On", "ON"]

/-- The words that mean no. -/
def noWords : List String := ["no", "No", "NO", "false", "False", "FALSE", "off", "Off", "OFF"]

/-- A text without its sign. -/
def unsigned (s : List Char) : List Char :=
  match s with
  | '+' :: rest | '-' :: rest => rest
  | _ => s

/-- Whether a character is a digit or sets digits apart. -/
def isSpacedDigit (c : Char) : Bool := c.isDigit || c == '_'

/-- Whether a part of a number in sixties follows each colon. -/
def isSixties (s : List Char) : Bool :=
  (Text.splitAt ':' s).all fun part =>
    match part with
    | [a] => a.isDigit
    | [a, b] => '0' ≤ a && a ≤ '5' && b.isDigit
    | _ => false

/-- Whether a text without a sign is a whole number, in any of its bases. -/
def isWhole (s : List Char) : Bool :=
  match s with
  | ['0'] => true
  | '0' :: 'b' :: c :: rest => (c :: rest).all fun d => d == '0' || d == '1' || d == '_'
  | '0' :: 'x' :: c :: rest => (c :: rest).all fun d => (Json.hexDigit? d).isSome || d == '_'
  | '0' :: c :: rest => (c :: rest).all fun d => ('0' ≤ d && d ≤ '7') || d == '_'
  | c :: rest =>
    let behind := rest.dropWhile isSpacedDigit
    '1' ≤ c && c ≤ '9' && (behind.isEmpty || (behind.head? == some ':' && isSixties behind.tail))
  | [] => false

/-- Whether a text is an exponent with a sign, or empty. -/
def isExponent (s : List Char) : Bool :=
  match s with
  | [] => true
  | e :: sign :: d :: rest =>
    (e == 'e' || e == 'E') && (sign == '+' || sign == '-') && (d :: rest).all Char.isDigit
  | _ => false

/-- Whether a text is a number with a fraction. -/
def isFraction (s : List Char) : Bool :=
  let u := unsigned s
  let whole := u.takeWhile isSpacedDigit
  match u.drop whole.length with
  | '.' :: rest =>
    let digits := rest.takeWhile isSpacedDigit
    let behind := rest.drop digits.length
    if whole.isEmpty then
      (u.length == s.length && digits.head?.any Char.isDigit && isExponent behind) ||
        ["inf", "Inf", "INF"].contains (String.ofList rest) ||
        (u.length == s.length && ["nan", "NaN", "NAN"].contains (String.ofList rest))
    else whole.head?.any Char.isDigit && isExponent behind
  | ':' :: rest =>
    let sixties := rest.takeWhile fun c => c.isDigit || c == ':'
    match rest.drop sixties.length with
    | '.' :: digits => whole.head?.any Char.isDigit && isSixties sixties && digits.all isSpacedDigit
    | _ => false
  | _ => false

/-- The lengths of runs of digits at the start of a text, each run followed by a given mark. -/
def digitRuns (marks : List Char) (s : List Char) : Option (List Nat × List Char) :=
  let n := (Json.digitsOf s).length
  match marks with
  | [] => some ([n], s.drop n)
  | mark :: more =>
    match s.drop n with
    | c :: rest =>
      if c == mark then (digitRuns more rest).map fun (ns, r) => (n :: ns, r) else none
    | [] => none

/-- Whether a text is the part of a time behind its seconds: a fraction and a zone, or less. -/
def isTimeEnd (s : List Char) : Bool :=
  let afterFraction := match s with
    | '.' :: rest => rest.dropWhile Char.isDigit
    | _ => s
  match afterFraction.dropWhile fun c => c == ' ' || c == '\t' with
  | [] => afterFraction.isEmpty
  | ['Z'] => true
  | sign :: rest =>
    let zone := match digitRuns [':'] rest with
      | some ([h, m], []) => (h == 1 || h == 2) && m == 2
      | _ => false
    (sign == '+' || sign == '-') &&
      (zone || (rest.all Char.isDigit && (rest.length == 1 || rest.length == 2)))

/-- Whether a text is a date, perhaps with a time. -/
def isDate (s : List Char) : Bool :=
  match digitRuns ['-', '-'] s with
  | some ([y, m, d], rest) =>
    let blanks := rest.takeWhile fun c => c == ' ' || c == '\t'
    let time := match rest with
      | 'T' :: r | 't' :: r => some r
      | _ => if blanks.isEmpty then none else some (rest.drop blanks.length)
    let short := fun (n : Nat) => n == 1 || n == 2
    y == 4 && ((m == 2 && d == 2 && rest.isEmpty) || (short m && short d &&
      match time.bind (digitRuns [':', ':']) with
      | some ([h, mi, se], r) => short h && mi == 2 && se == 2 && isTimeEnd r
      | _ => false))
  | _ => false

/-- The meaning of a plain scalar; nothing where a sign has a meaning only inside of tables. -/
def scalarValue (s : String) : Option Value :=
  let cs := s.toList
  let isZero := cs.all fun c => !('1' ≤ c && c ≤ '9') && !(Json.hexDigit? c).any (9 < ·)
  if nullWords.contains s then some .null
  else if yesWords.contains s then some (.bool true)
  else if noWords.contains s then some (.bool false)
  else if isFraction cs then
    some (.decimal s ((cs.takeWhile fun c => !(c == 'e' || c == 'E')).all fun c =>
      !('1' ≤ c && c ≤ '9') && !c.isAlpha))
  else if isWhole (unsigned cs) then some (if isZero then .int 0 else .opaqueScalar s)
  else if isDate cs then some (.opaqueScalar s)
  else if s == "<<" || s == "=" then none
  else some (.text s)

/-- The value of a scalar with a stated meaning. -/
def taggedScalar (name s : String) : Option Value :=
  match name with
  | "str" => some (.text s)
  | "null" => some .null
  | "bool" => if yesWords.contains s then some (.bool true) else some (.bool false)
  | "int" | "float" | "timestamp" | "binary" =>
    match scalarValue s with
    | some (.text _) | none => some (.opaqueScalar s)
    | some v => some v
  | _ => none

/-- The name of a tag of the standard. -/
def standardTag? (tag : String) : Option String :=
  let start := "tag:yaml.org,2002:".toList
  if start.isPrefixOf tag.toList then some (String.ofList (tag.toList.drop start.length)) else none

/-- Whether a tag may stand in front of a list or table of the given kind. -/
def suits (tag : Option String) (names : List String) : Bool :=
  match tag with
  | none | some "!" => true
  | some t => (standardTag? t).any names.contains

/-- Whether a value may be the key of a table: lists and tables may not. -/
def isKey : Value → Bool
  | .list _ | .table _ => false
  | _ => true

/-- Fields with one changed, or added at the end. -/
def putField (k v : Value) (fields : List (Value × Value)) : List (Value × Value) :=
  match k with
  | .text key => Json.putField key v fields
  | _ => fields ++ [(k, v)]

/-- Whether a key stands for the fields of its value. -/
def isMerge : Node → Bool
  | .scalar none true s => s == "<<"
  | .scalar (some t) _ _ => t == "tag:yaml.org,2002:merge"
  | _ => false

/-- The fields that the value of a merging key stands for. -/
def mergedFields : Value → Option (List (Value × Value))
  | .table fields => some fields
  | .list elements =>
    elements.foldlM (fun fields v => match v with
      | .table more => some (fields ++ more.filter fun f =>
          !(fields.any fun g => g.1.text?.isSome && g.1.text? == f.1.text?))
      | _ => none) []
  | _ => none

mutual

/-- The value of a tree; nothing where a part of it has no meaning. -/
def valueOf : Node → Option Value
  | .scalar tag plain s =>
    match tag with
    | none => if plain then scalarValue s else some (.text s)
    | some "!" => some (.text s)
    | some t => (standardTag? t).bind (taggedScalar · s)
  | .list tag elements =>
    if suits tag ["seq"] then (valuesOf elements).map .list else none
  | .table tag fields =>
    if suits tag ["map", "set"] then (fieldsOf fields [] []).map .table else none
  | .around => some (.opaqueScalar "")

/-- The values of trees. -/
def valuesOf : List Node → Option (List Value)
  | [] => some []
  | n :: rest => (valueOf n).bind fun v => (valuesOf rest).map (v :: ·)

/-- The fields of a table, after those that merging keys stand for and those read before. -/
def fieldsOf (fields : List (Node × Node)) (merged own : List (Value × Value)) :
    Option (List (Value × Value)) :=
  match fields with
  | [] =>
    some (own.foldl (fun all f => putField f.1 f.2 all) merged)
  | (k, v) :: rest =>
    if isMerge k then
      ((valueOf v).bind mergedFields).bind fun more => fieldsOf rest (more ++ merged) own
    else
      match valueOf k, valueOf v with
      | some key, some value =>
        if isKey key then fieldsOf rest merged (putField key value own) else none
      | _, _ => none

end

/-- The value of a text in YAML; nothing for a text without a document. -/
def read (s : String) : Except YamlStage Value :=
  match readDocument s with
  | .error e => .error e
  | .ok none => .ok .null
  | .ok (some n) =>
    match valueOf n with
    | some v => .ok v
    | none => .error .meaning

end ThemeOverride.Yaml
