import ThemeOverride.Script.Reading

/-!
# Scripts with errors

A text that the grammar cannot read still has a syntax tree. Where a statement cannot be read,
the fewest tokens are left out that make it a statement, those furthest on first; they come back
into the tree as an error at their place. If no few tokens will do, all tokens up to the next
line that begins an import or export are an error.

## Main definitions

* `ThemeOverride.Script.tokenLengths`: the tokens of a text, whatever their order.
* `ThemeOverride.Script.insertAt?`: puts a tree into others at a place.
* `ThemeOverride.Script.parse`: the syntax tree of any text.
-/

namespace ThemeOverride.Script

/-- The length of a quoted text up to its closing quote on the same line. -/
def quotedLength (quote : Char) : List Char → Option Nat
  | [] => none
  | '\n' :: _ => none
  | '\\' :: _ :: rest => (quotedLength quote rest).map (· + 2)
  | c :: rest => if c == quote then some 1 else (quotedLength quote rest).map (· + 1)

/-- The kind and the length of one token, of which a text that is not empty has one. -/
def anyToken (s : List Char) : Kind × Nat :=
  match s with
  | [] => (.token, 0)
  | c :: rest =>
    match wordLength s with
    | some n => (.identifier, n)
    | none =>
      match numberLength s with
      | some n => (.number, n)
      | none =>
        if c == '\x27' || c == '\x22' then
          match quotedLength c rest with
          | some n => (.string, n + 1)
          | none => (.token, 1)
        else
          match operatorAt s with
          | some o => (.token, o.length)
          | none => (.token, 1)

/-- The tokens at the start of a text as leaves, at most `fuel` of them. -/
def tokenLeaves (fuel : Nat) (s : List Char) : List Tree :=
  match fuel with
  | 0 => []
  | fuel + 1 =>
    let (extras, gap, rest) := comments s
    match rest with
    | [] => extras
    | _ :: _ =>
      let (kind, n) := anyToken rest
      extras ++ .leaf none kind gap (rest.take n) :: tokenLeaves fuel (rest.drop n)

/-- An error that holds the tokens of a text. -/
def errorNode (s : List Char) : Tree := .node none .error (tokenLeaves (s.length + 1) s)

/-- Whether a token begins a line and may begin an import or an export. -/
def beginsSection (gap rest : List Char) : Bool :=
  gap.contains '\n' && ((keyword "export" rest).isSome || (keyword "import" rest).isSome)

/-- The places where the tokens at the start of a text end, at most `fuel` of them, up to the next
line that begins an import or an export. `passed` characters come before the text. -/
def tokenEnds (fuel passed : Nat) (s : List Char) : List Nat :=
  match fuel with
  | 0 => []
  | fuel + 1 =>
    let (extras, gap, rest) := comments s
    match rest with
    | [] => []
    | _ :: _ =>
      if passed != 0 && beginsSection gap rest then []
      else
        let after := passed + (Tree.charsAll extras).length + gap.length + (anyToken rest).2
        after :: tokenEnds fuel after (rest.drop (anyToken rest).2)

mutual

/-- Puts a tree into another at a place strictly inside of it, counted in characters; nothing
where the place lies inside of a token. -/
def insertInside? (new : Tree) (place : Nat) : Tree → Option Tree
  | .leaf _ _ _ _ => none
  | .node f k cs => (insertAt? new place cs).map (.node f k)

/-- Puts a tree between others at a place counted in characters; nothing where the place lies
inside of a token. -/
def insertAt? (new : Tree) (place : Nat) : List Tree → Option (List Tree)
  | [] => if place == 0 then some [new] else none
  | t :: ts =>
    if place == 0 then some (new :: t :: ts)
    else if place < t.chars.length then (insertInside? new place t).map (· :: ts)
    else (insertAt? new (place - t.chars.length) ts).map (t :: ·)

end

/-- The most tokens that are left out of a statement to make it one. -/
def mostLeftOut : Nat := 5

/-- The most tokens at the start of a statement that are tried. -/
def mostTried : Nat := 40

/-- A statement at the start of a text when the characters between two places are left out, with
these characters as an error at their place. -/
def statementWithout? (dialect : Dialect) (s : List Char) (start stop : Nat) :
    Option (List Tree × List Char) :=
  match readForm dialect Form.statement (s.take start ++ s.drop stop) with
  | none => none
  | some (trees, rest) =>
    if (s.drop stop).length < rest.length then none
    else (insertAt? (errorNode ((s.take stop).drop start)) start trees).map (·, rest)

/-- The places between which `count` tokens lie, the last tokens first. -/
def stretches (ends : List Nat) (count : Nat) : List (Nat × Nat) :=
  ((0 :: ends).zip (ends.drop (count - 1))).reverse

/-- A statement at the start of a text, with as few tokens left out as make it one. -/
def repairStatement? (dialect : Dialect) (s : List Char) : Option (List Tree × List Char) :=
  let ends := tokenEnds mostTried 0 s
  (List.range mostLeftOut).findSome? fun n =>
    (stretches ends (n + 1)).findSome? fun (start, stop) =>
      if start == stop then none else statementWithout? dialect s start stop

/-- The tokens up to the next line that begins an import or export as an error. -/
def skipSection (s : List Char) : List Tree × List Char :=
  let n := (tokenEnds s.length 0 s).getLast?.getD s.length
  ([errorNode (s.take n)], s.drop n)

/-- The statements of a text, with errors where it has none, at most `fuel` of them. -/
def readStatements (dialect : Dialect) (fuel : Nat) (s : List Char) : List Tree :=
  match fuel with
  | 0 => [errorNode s]
  | fuel + 1 =>
    if (comments s).2.2.isEmpty then (comments s).1 ++ [.leaf none .terminator (comments s).2.1 []]
    else
      let (trees, rest) :=
        ((readForm dialect Form.statement s).or (repairStatement? dialect s)).getD (skipSection s)
      trees ++ readStatements dialect fuel rest

/-- The syntax tree of a text. -/
def parse (dialect : Dialect) (s : List Char) : Tree :=
  (readProgram? dialect s).getD (.node none .program (readStatements dialect (s.length + 1) s))

end ThemeOverride.Script
