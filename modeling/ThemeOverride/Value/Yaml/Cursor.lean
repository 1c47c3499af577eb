import ThemeOverride.Failure

/-!
# Places in a YAML text

A YAML text is read from a place with a line and a column, since its structure hangs on the
columns. Line feeds, next-line characters and the two Unicode separators break lines.

## Main definitions

* `ThemeOverride.Yaml.Cursor`: what is still to be read, and its place.
* `ThemeOverride.Yaml.Cursor.skip`, `Cursor.breakLine?`: going on.
-/

namespace ThemeOverride.Yaml

/-- Whether a character breaks a line. -/
def isBreak (c : Char) : Bool := c == '\n' || c == '\x85' || c == '\u2028' || c == '\u2029'

/-- Whether a line ends before what follows. -/
def endsLine : Option Char → Bool
  | none => true
  | some c => isBreak c

/-- Whether a word ends before what follows. -/
def endsWord : Option Char → Bool
  | none => true
  | some c => c == ' ' || c == '\t' || isBreak c

/-- Whether a character may stand in a YAML text. -/
def isAllowed (c : Char) : Bool :=
  let n := c.toNat
  n == 9 || n == 10 || n == 13 || (0x20 ≤ n && n ≤ 0x7E) || n == 0x85 || (0xA0 ≤ n && n ≤ 0xD7FF) ||
    (0xE000 ≤ n && n ≤ 0xFFFD) || 0x10000 ≤ n

/-- What is still to be read, and its place. -/
structure Cursor where
  rest : List Char
  index : Nat := 0
  line : Nat := 0
  column : Nat := 0
  deriving Repr

namespace Cursor

/-- The character at a distance. -/
def peek (c : Cursor) (n : Nat) : Option Char := c.rest[n]?

/-- The place behind the next character. -/
def next (c : Cursor) : Cursor :=
  match c.rest with
  | [] => c
  | ch :: rest =>
    if isBreak ch then ⟨rest, c.index + 1, c.line + 1, 0⟩
    else ⟨rest, c.index + 1, c.line, if ch == '\uFEFF' then c.column else c.column + 1⟩

/-- The place behind the next characters. -/
def skip (c : Cursor) : Nat → Cursor
  | 0 => c
  | n + 1 => c.next.skip n

/-- The characters at the start that pass a test. -/
def run (c : Cursor) (test : Char → Bool) : List Char := c.rest.takeWhile test

/-- The place behind the characters at the start that pass a test. -/
def skipWhile (c : Cursor) (test : Char → Bool) : Cursor := c.skip (c.run test).length

/-- The place at the end of the line. -/
def skipLine (c : Cursor) : Cursor := c.skipWhile fun ch => !isBreak ch

/-- The line break at the start, as it counts in a text, and the place behind it. -/
def breakLine? (c : Cursor) : Option (Char × Cursor) :=
  match c.rest with
  | ch :: _ =>
    if ch == '\u2028' || ch == '\u2029' then some (ch, c.next)
    else if isBreak ch then some ('\n', c.next)
    else none
  | [] => none

/-- Whether a mark of three characters stands at the start, on its own. -/
def hasMark (c : Cursor) (mark : String) : Bool :=
  mark.toList.isPrefixOf c.rest && endsWord (c.peek 3)

/-- Whether the next line begins another document or ends this one. -/
def atSeparator (c : Cursor) : Bool := c.hasMark "---" || c.hasMark "..."

/-- Lines that hold only characters that pass a test are skipped, at most `fuel` of them; their
line breaks count. -/
def emptyLines (fuel : Nat) (test : Char → Bool) (c : Cursor) : List Char × Cursor :=
  match fuel with
  | 0 => ([], c)
  | fuel + 1 =>
    let c := c.skipWhile test
    match c.breakLine? with
    | none => ([], c)
    | some (ch, after) =>
      let (chs, c) := emptyLines fuel test after
      (ch :: chs, c)

end Cursor

/-- What a line break and the breaks of empty lines behind it count as inside of a text: a single
line break is a space. -/
def foldBreaks (first : Char) (others : List Char) : List Char :=
  if first != '\n' then first :: others else if others.isEmpty then [' '] else others

end ThemeOverride.Yaml
