import ThemeOverride.Value.Yaml.Scalar

/-!
# Tokens of a YAML text

A YAML text is read as tokens. Besides the marks that stand in it, there are tokens where a list
or a table begins and ends, which the columns decide. Whether a value is a key shows only behind
it, so a token for a key may be put in front of tokens that are read already; a token is given
out only when nothing can be put in front of it any more.

## Main definitions

* `ThemeOverride.Yaml.Token`: tokens.
* `ThemeOverride.Yaml.Scan`: what is read and what is still to be read.
* `ThemeOverride.Yaml.Scan.ready`: reads on until a token can be given out.
-/

namespace ThemeOverride.Yaml

/-- A token. -/
inductive Token where
  | streamEnd
  | directive
  | documentStart
  | documentEnd
  | listStart
  | tableStart
  | blockEnd
  | flowListStart
  | flowListEnd
  | flowTableStart
  | flowTableEnd
  | entry
  | comma
  | key
  | value
  | alias (name : String)
  | anchor (name : String)
  | tag (handle : Option String) (name : String)
  | scalar (s : String) (plain : Bool)
  deriving DecidableEq, Repr, Inhabited

/-- A value that may turn out to be a key: the number of its first token, whether it has to be a
key, and where it begins. -/
structure KeyPlace where
  number : Nat
  required : Bool
  index : Nat
  line : Nat
  column : Nat
  deriving Repr

/-- What is read of a text and what is still to be read: the place, the depth of brackets, the
column of the innermost block and of those around it, whether a key may begin, the values that
may turn out to be keys by the depth of brackets, the tokens that are not given out yet, and the
number of those that are. -/
structure Scan where
  cursor : Cursor
  flow : Int := 0
  indent : Int := -1
  indents : List Int := []
  keyAllowed : Bool := true
  keys : List (Int × KeyPlace) := []
  queue : List Token := []
  taken : Nat := 0
  finished : Bool := false
  deriving Repr

namespace Scan

/-- Whether the place is inside of brackets. -/
def inFlow (s : Scan) : Bool := s.flow != 0

/-- A token behind those that are read. -/
def push (s : Scan) (t : Token) : Scan := { s with queue := s.queue ++ [t] }

/-- Tokens put in front of the token with a number. -/
def insert (s : Scan) (number : Nat) (ts : List Token) : Scan :=
  let n := number - s.taken
  { s with queue := s.queue.take n ++ ts ++ s.queue.drop n }

/-- Begins a block at a column that is farther in than the innermost block. -/
def beginBlock (s : Scan) (column : Nat) : Option Scan :=
  if s.indent < column then some { s with indents := s.indent :: s.indents, indent := column }
  else none

/-- Ends the blocks that begin farther in than a column. -/
def endBlocks (column : Int) (s : Scan) : Scan :=
  if s.inFlow then s else go s.indents s
where
  /-- Ends one block after the other; `outer` are the columns of the blocks around. -/
  go : List Int → Scan → Scan
    | [], s => s
    | outer :: more, s =>
      if column < s.indent then go more { s.push .blockEnd with indent := outer, indents := more }
      else s

/-- The key that may be at the current depth of brackets. -/
def key? (s : Scan) : Option KeyPlace := s.keys.lookup s.flow

/-- Gives up the key that may be at the current depth of brackets. -/
def dropKey (s : Scan) : Except YamlStage Scan :=
  if s.key?.any (·.required) then .error .token
  else .ok { s with keys := s.keys.filter fun k => k.1 != s.flow }

/-- A key may begin here. -/
def markKey (s : Scan) : Except YamlStage Scan :=
  if !s.keyAllowed then .ok s
  else
    let c := s.cursor
    let required := !s.inFlow && s.indent == c.column
    s.dropKey.map fun s =>
      { s with
        keys := (s.flow, ⟨s.taken + s.queue.length, required, c.index, c.line, c.column⟩) :: s.keys }

/-- Gives up keys that would not be on one line or too long. -/
def dropOldKeys (s : Scan) : Except YamlStage Scan :=
  let old := fun (k : KeyPlace) => k.line != s.cursor.line || 1024 < s.cursor.index - k.index
  if s.keys.any fun k => old k.2 && k.2.required then .error .token
  else .ok { s with keys := s.keys.filter fun k => !old k.2 }

/-- Skips blanks, comments and line breaks, at most `fuel` of them. -/
def skipGap (fuel : Nat) (s : Scan) : Scan :=
  match fuel with
  | 0 => s
  | fuel + 1 =>
    let c := s.cursor.skipWhile (· == ' ')
    let c := if c.peek 0 == some '#' then c.skipLine else c
    match c.breakLine? with
    | none => { s with cursor := c }
    | some (_, after) =>
      skipGap fuel { s with cursor := after, keyAllowed := s.keyAllowed || !s.inFlow }

/-- Skips characters. -/
def skip (s : Scan) (n : Nat) : Scan := { s with cursor := s.cursor.skip n }

/-- Ends all blocks, behind which no key may be. -/
def endDocument (s : Scan) : Except YamlStage Scan :=
  (s.endBlocks (-1)).dropKey.map fun s => { s with keyAllowed := false }

/-- Reads a bracket that opens. -/
def openFlow (s : Scan) (t : Token) : Except YamlStage Scan :=
  s.markKey.map fun s => ({ s with flow := s.flow + 1, keyAllowed := true }.skip 1).push t

/-- Reads a bracket that closes. -/
def closeFlow (s : Scan) (t : Token) : Except YamlStage Scan :=
  s.dropKey.map fun s => ({ s with flow := s.flow - 1, keyAllowed := false }.skip 1).push t

/-- Begins a block with a mark, where one may begin. -/
def markBlock (s : Scan) (start : Token) : Except YamlStage Scan :=
  if s.inFlow then .ok s
  else if !s.keyAllowed then .error .token
  else
    match s.beginBlock s.cursor.column with
    | some s => .ok (s.push start)
    | none => .ok s

/-- Reads the mark of an element of a list. -/
def readEntry (s : Scan) : Except YamlStage Scan :=
  (s.markBlock .listStart).bind fun s =>
    s.dropKey.map fun s => ({ s with keyAllowed := true }.skip 1).push .entry

/-- Reads the mark of a key. -/
def readKey (s : Scan) : Except YamlStage Scan :=
  (s.markBlock .tableStart).bind fun s =>
    s.dropKey.map fun s => ({ s with keyAllowed := !s.inFlow }.skip 1).push .key

/-- Reads the mark of a value; what stands in front of it may be its key. -/
def readValue (s : Scan) : Except YamlStage Scan :=
  match s.key? with
  | some k =>
    let s := { s with keys := s.keys.filter (fun e => e.1 != s.flow), keyAllowed := false }
    let s := match if s.inFlow then none else s.beginBlock k.column with
      | some s => s.insert k.number [.tableStart, .key]
      | none => s.insert k.number [.key]
    .ok ((s.skip 1).push .value)
  | none =>
    (s.markBlock .tableStart).bind fun s =>
      s.dropKey.map fun s => ({ s with keyAllowed := !s.inFlow }.skip 1).push .value

/-- A token that was read up to a place. -/
def readTo (s : Scan) (c : Cursor) (t : Token) : Scan := { s with cursor := c }.push t

/-- Reads a token that may begin a key. -/
def readNode (s : Scan) (read : Scan → Except YamlStage Scan) : Except YamlStage Scan :=
  s.markKey.bind fun s => read { s with keyAllowed := false }

/-- Reads a block of text. -/
def readBlockScalar (s : Scan) (folded : Bool) : Except YamlStage Scan :=
  s.dropKey.bind fun s =>
    (readBlock folded s.indent s.cursor.next).map fun (text, c) =>
      { s with keyAllowed := true }.readTo c (.scalar (String.ofList text) false)

/-- Reads a scalar between quotes. -/
def readQuoted (s : Scan) (double : Bool) : Except YamlStage Scan :=
  s.readNode fun s =>
    let c := s.cursor.next
    let read := if double then readDouble else readSingle
    (read (c.rest.length + 1) c).map fun (text, c) =>
      s.readTo c (.scalar (String.ofList text) false)

/-- Reads a plain scalar. -/
def readPlainScalar (s : Scan) : Except YamlStage Scan :=
  s.readNode fun s =>
    let c := s.cursor
    let (text, c, broke) := readPlain (c.rest.length + 1) s.inFlow (s.indent + 1) [] false c
    .ok ({ s with keyAllowed := broke }.readTo c (.scalar (String.ofList text) true))

/-- Whether a plain scalar begins with a character before what follows. -/
def beginsPlain (s : Scan) (ch : Char) (following : Option Char) : Bool :=
  !(endsWord (some ch) || "-?:,[]\x7b\x7d#&*!|>\x27\x22%@\x60".toList.contains ch) ||
    (!(endsWord following) && (ch == '-' || (!s.inFlow && (ch == '?' || ch == ':'))))

/-- Reads the token that begins with a character. -/
def readToken (s : Scan) (ch : Char) : Except YamlStage Scan :=
  let following := s.cursor.peek 1
  let c := s.cursor
  if c.column == 0 && ch == '%' then
    s.endDocument.map fun s => s.readTo s.cursor.skipLine .directive
  else if c.column == 0 && c.hasMark "---" then
    s.endDocument.map fun s => s.readTo (s.cursor.skip 3) .documentStart
  else if c.column == 0 && c.hasMark "..." then
    s.endDocument.map fun s => s.readTo (s.cursor.skip 3) .documentEnd
  else if ch == '[' then s.openFlow .flowListStart
  else if ch == '\x7b' then s.openFlow .flowTableStart
  else if ch == ']' then s.closeFlow .flowListEnd
  else if ch == '\x7d' then s.closeFlow .flowTableEnd
  else if ch == ',' then
    s.dropKey.map fun s => ({ s with keyAllowed := true }.skip 1).push .comma
  else if ch == '-' && endsWord following then s.readEntry
  else if ch == '?' && (s.inFlow || endsWord following) then s.readKey
  else if ch == ':' && (s.inFlow || endsWord following) then s.readValue
  else if ch == '*' then
    s.readNode fun s => (readName c.next).map fun (name, c) => s.readTo c (.alias name)
  else if ch == '&' then
    s.readNode fun s => (readName c.next).map fun (name, c) => s.readTo c (.anchor name)
  else if ch == '!' then
    s.readNode fun s => (readTag c).map fun ((handle, name), c) => s.readTo c (.tag handle name)
  else if ch == '|' && !s.inFlow then s.readBlockScalar false
  else if ch == '>' && !s.inFlow then s.readBlockScalar true
  else if ch == '\x27' then s.readQuoted false
  else if ch == '\x22' then s.readQuoted true
  else if s.beginsPlain ch following then s.readPlainScalar
  else .error .token

/-- Reads the next token. -/
def readNext (s : Scan) : Except YamlStage Scan := do
  let s ← (skipGap (s.cursor.rest.length + 1) s).dropOldKeys
  let s := s.endBlocks s.cursor.column
  match s.cursor.peek 0 with
  | some ch => s.readToken ch
  | none =>
    let s ← s.endDocument
    return { s.push .streamEnd with keys := [], finished := true }

/-- Reads on until a token can be given out, at most `fuel` tokens. -/
def readyIn (fuel : Nat) (s : Scan) : Except YamlStage Scan :=
  match fuel with
  | 0 => .ok s
  | fuel + 1 =>
    if s.finished then .ok s
    else if s.queue.isEmpty then s.readNext.bind (readyIn fuel)
    else
      s.dropOldKeys.bind fun s =>
        if s.keys.any fun k => k.2.number == s.taken then s.readNext.bind (readyIn fuel) else .ok s

/-- Reads on until a token can be given out. -/
def ready (s : Scan) : Except YamlStage Scan := s.readyIn (s.cursor.rest.length + 2)

/-- The token that is given out next. -/
def head (s : Scan) : Token := s.queue.head?.getD .streamEnd

/-- Gives a token out. -/
def take (s : Scan) : Scan := { s with queue := s.queue.tail, taken := s.taken + 1 }

end Scan

/-- A text before its first token. A mark of the order of bytes may stand in front of it. -/
def scanStart (s : String) : Scan :=
  match s.toList with
  | '\uFEFF' :: rest => { cursor := ⟨rest, 1, 0, 0⟩ }
  | cs => { cursor := ⟨cs, 0, 0, 0⟩ }

end ThemeOverride.Yaml
