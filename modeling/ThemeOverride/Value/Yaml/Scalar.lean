import ThemeOverride.Value.Yaml.Cursor
import ThemeOverride.Value.Json

/-!
# Scalars in YAML

The scalars of a YAML text: plain ones, which go on over lines that are indented far enough;
quoted ones; and blocks, whose lines are kept or folded. Also names, which mark values and refer
to them, and tags.

## Main definitions

* `ThemeOverride.Yaml.readPlain`, `readSingle`, `readDouble`, `readBlock`: the four scalars.
* `ThemeOverride.Yaml.readName`, `readTag`: names and tags.
-/

namespace ThemeOverride.Yaml

/-- The length of a plain word. Inside of brackets, fewer characters may stand in it. -/
def plainLength (inFlow : Bool) : List Char → Nat
  | [] => 0
  | c :: rest =>
    let closes := fun (d : Char) => d == ',' || d == '[' || d == ']' || d == '\x7b' || d == '\x7d'
    if endsWord (some c) || (inFlow && (closes c || c == '?')) ||
        (c == ':' && (endsWord rest.head? || (inFlow && rest.head?.any closes))) then 0
    else plainLength inFlow rest + 1

/-- What stands between two plain words, the place behind it, and whether a line was broken.
Nothing stands between words of two documents. -/
def plainGap (c : Cursor) : List Char × Cursor × Bool :=
  let spaces := c.run (· == ' ')
  let c := c.skip spaces.length
  match c.breakLine? with
  | none => (spaces, c, false)
  | some (first, after) =>
    if after.atSeparator then ([], after, true)
    else
      let (others, c) := gapLines (after.rest.length + 1) after
      (match others with
        | none => []
        | some others => foldBreaks first others, c, true)
where
  /-- The breaks of empty lines, unless a separator of documents follows. -/
  gapLines (fuel : Nat) (c : Cursor) : Option (List Char) × Cursor :=
    match fuel with
    | 0 => (some [], c)
    | fuel + 1 =>
      let c := c.skipWhile (· == ' ')
      match c.breakLine? with
      | none => (some [], c)
      | some (ch, after) =>
        if after.atSeparator then (none, after)
        else
          let (chs, c) := gapLines fuel after
          (chs.map (ch :: ·), c)

/-- Reads a plain scalar, of at most `fuel` words. `gap` stands in front of the next word, and
`broke` tells whether a line was broken there. -/
def readPlain (fuel : Nat) (inFlow : Bool) (indent : Int) (gap : List Char) (broke : Bool)
    (c : Cursor) : List Char × Cursor × Bool :=
  match fuel with
  | 0 => ([], c, broke)
  | fuel + 1 =>
    let n := plainLength inFlow c.rest
    if n == 0 then ([], c, broke)
    else
      let word := gap ++ c.rest.take n
      let (gap, after, broke) := plainGap (c.skip n)
      if gap.isEmpty || after.peek 0 == some '#' || (!inFlow && (after.column : Int) < indent) then
        (word, after, broke)
      else
        let (words, c, broke) := readPlain fuel inFlow indent gap broke after
        (word ++ words, c, broke)

/-- The breaks of empty lines inside of quotes; documents may not end there. -/
def quotedLines (fuel : Nat) (c : Cursor) : Except YamlStage (List Char × Cursor) :=
  match fuel with
  | 0 => .ok ([], c)
  | fuel + 1 =>
    if c.atSeparator then .error .token
    else
      let c := c.skipWhile fun ch => ch == ' ' || ch == '\t'
      match c.breakLine? with
      | none => .ok ([], c)
      | some (ch, after) => (quotedLines fuel after).map fun (chs, c) => (ch :: chs, c)

/-- What blanks and line breaks inside of quotes count as. -/
def quotedGap (c : Cursor) : Except YamlStage (List Char × Cursor) :=
  let spaces := c.run fun ch => ch == ' ' || ch == '\t'
  let c := c.skip spaces.length
  match c.breakLine? with
  | some (first, after) =>
    (quotedLines (after.rest.length + 1) after).map fun (others, c) => (foldBreaks first others, c)
  | none => if c.rest.isEmpty then .error .token else .ok (spaces, c)

/-- Reads the rest of a scalar in single quotes, in at most `fuel` steps. -/
def readSingle (fuel : Nat) (c : Cursor) : Except YamlStage (List Char × Cursor) :=
  match fuel with
  | 0 => .error .token
  | fuel + 1 =>
    match c.rest with
    | '\x27' :: '\x27' :: _ =>
      (readSingle fuel (c.skip 2)).map fun (cs, c) => ('\x27' :: cs, c)
    | '\x27' :: _ => .ok ([], c.next)
    | ch :: _ =>
      if endsWord (some ch) then
        match quotedGap c with
        | .error e => .error e
        | .ok (gap, c) => (readSingle fuel c).map fun (cs, c) => (gap ++ cs, c)
      else (readSingle fuel c.next).map fun (cs, c) => (ch :: cs, c)
    | [] => .error .token

/-- The characters that letters stand for behind a backslash. -/
def escapes : List (Char × Char) :=
  [('0', '\x00'), ('a', '\x07'), ('b', '\x08'), ('t', '\t'), ('\t', '\t'), ('n', '\n'),
   ('v', '\x0b'), ('f', '\x0c'), ('r', '\r'), ('e', '\x1b'), (' ', ' '), ('\x22', '\x22'),
   ('\\', '\\'), ('/', '/'), ('N', '\x85'), ('_', '\xa0'), ('L', '\u2028'), ('P', '\u2029')]

/-- The number of digits of a character's number behind a letter. -/
def escapeDigits? : Char → Option Nat
  | 'x' => some 2
  | 'u' => some 4
  | 'U' => some 8
  | _ => none

/-- What an escape behind a backslash stands for, and the place behind it. -/
def readEscape (c : Cursor) : Except YamlStage (List Char × Cursor) :=
  match c.rest with
  | [] => .error .token
  | ch :: rest =>
    match escapes.lookup ch with
    | some d => .ok ([d], c.next)
    | none =>
      match escapeDigits? ch with
      | some n =>
        match Json.hexNumber? (rest.take n) with
        | some value =>
          if rest.length < n then .error .token else .ok ([Char.ofNat value], c.skip (n + 1))
        | none => .error .token
      | none =>
        match c.breakLine? with
        | some (_, after) => quotedLines (after.rest.length + 1) after
        | none => .error .token

/-- Reads the rest of a scalar in double quotes, in at most `fuel` steps. -/
def readDouble (fuel : Nat) (c : Cursor) : Except YamlStage (List Char × Cursor) :=
  match fuel with
  | 0 => .error .token
  | fuel + 1 =>
    match c.rest with
    | '\x22' :: _ => .ok ([], c.next)
    | '\\' :: _ =>
      match readEscape c.next with
      | .error e => .error e
      | .ok (s, c) => (readDouble fuel c).map fun (cs, c) => (s ++ cs, c)
    | ch :: _ =>
      if endsWord (some ch) then
        match quotedGap c with
        | .error e => .error e
        | .ok (gap, c) => (readDouble fuel c).map fun (cs, c) => (gap ++ cs, c)
      else (readDouble fuel c.next).map fun (cs, c) => (ch :: cs, c)
    | [] => .error .token

/-- How a block ends and how far it is indented: whether its last line breaks are all kept or all
dropped, if stated, and the stated indentation. -/
structure BlockHead where
  keep : Option Bool := none
  indent : Option Nat := none
  deriving Repr

/-- Reads one sign of a block's head; an indentation of zero may not be stated. -/
def BlockHead.sign (h : BlockHead) (c : Cursor) : Except YamlStage (BlockHead × Cursor) :=
  match c.peek 0 with
  | some ch =>
    if ch == '+' || ch == '-' then
      .ok (if h.keep.isSome then (h, c) else ({ h with keep := some (ch == '+') }, c.next))
    else if ch.isDigit then
      if h.indent.isSome then .ok (h, c)
      else if ch == '0' then .error .token
      else .ok ({ h with indent := some (ch.toNat - '0'.toNat) }, c.next)
    else .ok (h, c)
  | none => .ok (h, c)

/-- Reads the head of a block, with the rest of its line. -/
def readBlockHead (c : Cursor) : Except YamlStage (BlockHead × Cursor) := do
  let (h, c) ← BlockHead.sign {} c
  let (h, c) ← h.sign c
  if !(endsLine (c.peek 0) || c.peek 0 == some ' ') then throw .token
  let c := c.skipWhile (· == ' ')
  let c := if c.peek 0 == some '#' then c.skipLine else c
  if !(endsLine (c.peek 0)) then throw .token
  return (h, ((c.breakLine?).map (·.2)).getD c)

/-- Skips the spaces at the start of a line up to a column. -/
def indentTo (column : Int) (c : Cursor) : Cursor :=
  c.skip ((c.run (· == ' ')).take (column - c.column).toNat).length

/-- The breaks of lines that are empty up to a column, at most `fuel` of them, and the place
where a line holds more. -/
def blockBreaks (fuel : Nat) (column : Int) (c : Cursor) : List Char × Cursor :=
  match fuel with
  | 0 => ([], c)
  | fuel + 1 =>
    let c := indentTo column c
    match c.breakLine? with
    | none => ([], c)
    | some (ch, after) =>
      let (chs, c) := blockBreaks fuel column after
      (ch :: chs, c)

/-- The breaks of the empty lines that a block begins with, the place behind them, and the
farthest column there. -/
def blockStart (fuel : Nat) (farthest : Nat) (c : Cursor) : List Char × Cursor × Nat :=
  match fuel with
  | 0 => ([], c, farthest)
  | fuel + 1 =>
    let c := c.skipWhile (· == ' ')
    let farthest := max farthest c.column
    match c.breakLine? with
    | none => ([], c, farthest)
    | some (ch, after) =>
      let (chs, c, farthest) := blockStart fuel farthest after
      (ch :: chs, c, farthest)

/-- Reads the lines of a block, at most `fuel` of them, with the breaks in front of the next line.
The last line break and the breaks behind it are given apart. -/
def blockLines (fuel : Nat) (folded : Bool) (column : Int) (breaks : List Char) (c : Cursor) :
    List Char × Option Char × List Char × Cursor :=
  match fuel with
  | 0 => ([], none, breaks, c)
  | fuel + 1 =>
    let line := c.run fun ch => !isBreak ch
    let isText := fun (ch : Option Char) => !(ch == some ' ' || ch == some '\t')
    let text := breaks ++ line
    match (c.skip line.length).breakLine? with
    | none => (text, none, [], c.skip line.length)
    | some (last, after) =>
      let (breaks, next) := blockBreaks (after.rest.length + 1) column after
      if (next.column : Int) == column && !next.rest.isEmpty then
        let between :=
          if folded && last == '\n' && isText (c.peek 0) && isText (next.peek 0) then
            if breaks.isEmpty then [' '] else []
          else [last]
        let (more, last, breaks, c) := blockLines fuel folded column breaks next
        (text ++ between ++ more, last, breaks, c)
      else (text, some last, breaks, next)

/-- Reads a block behind its sign. `indent` is the column of what the block belongs to. -/
def readBlock (folded : Bool) (indent : Int) (c : Cursor) :
    Except YamlStage (List Char × Cursor) := do
  let (h, c) ← readBlockHead c
  let least := max (indent + 1) 1
  let fuel := c.rest.length + 1
  let (breaks, c, column) := match h.indent with
    | some n =>
      let column := least + n - 1
      let (breaks, c) := blockBreaks fuel column c
      (breaks, c, column)
    | none =>
      let (breaks, c, farthest) := blockStart fuel 0 c
      (breaks, c, max least farthest)
  let (text, last, breaks, c) :=
    if (c.column : Int) == column && !c.rest.isEmpty then blockLines fuel folded column breaks c
    else ([], none, breaks, c)
  let ending := if h.keep == some false then [] else last.toList
  return (text ++ ending ++ (if h.keep == some true then breaks else []), c)

/-- Whether a character may stand in a name. -/
def isNameCharacter (c : Char) : Bool := c.isAlphanum || c == '-' || c == '_'

/-- Reads a name that marks a value or refers to it. -/
def readName (c : Cursor) : Except YamlStage (String × Cursor) :=
  let name := c.run isNameCharacter
  let c := c.skip name.length
  let ends := endsWord (c.peek 0) ||
    (c.peek 0).any ("?:,]\x7d%@\x60".toList.contains ·)
  if name.isEmpty || !ends then .error .token else .ok (String.ofList name, c)

/-- Whether a character may stand in the name of a tag. -/
def isTagCharacter (c : Char) : Bool :=
  c.isAlphanum || "-;/?:@&=+$,_.!~*\x27()[]%".toList.contains c

/-- Reads a tag: its handle, if it has one, and what follows. -/
def readTag (c : Cursor) : Except YamlStage ((Option String × String) × Cursor) :=
  match c.peek 1 with
  | some '<' =>
    let c := c.skip 2
    let name := c.run isTagCharacter
    let c := c.skip name.length
    if name.isEmpty || c.peek 0 != some '>' then .error .token
    else ended (none, String.ofList name) c.next
  | following =>
    if endsWord following then ended (none, "!") c.next
    else
      let word := c.rest.drop 1 |>.takeWhile fun ch => !(ch == ' ' || isBreak ch)
      let handle := word.takeWhile isNameCharacter
      if word.contains '!' then
        if (c.peek (handle.length + 1)) != some '!' then .error .token
        else named (String.ofList ('!' :: handle ++ ['!'])) (c.skip (handle.length + 2))
      else named "!" c.next
where
  /-- Reads the name of a tag behind its handle. -/
  named (handle : String) (c : Cursor) : Except YamlStage ((Option String × String) × Cursor) :=
    let name := c.run isTagCharacter
    if name.isEmpty then .error .token
    else ended (some handle, String.ofList name) (c.skip name.length)
  /-- A tag ends with its line or before a space. -/
  ended (tag : Option String × String) (c : Cursor) :
      Except YamlStage ((Option String × String) × Cursor) :=
    if endsLine (c.peek 0) || c.peek 0 == some ' ' then .ok (tag, c) else .error .token

end ThemeOverride.Yaml
