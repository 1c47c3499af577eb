import ThemeOverride.Value.Yaml.Token

/-!
# The structure of a YAML text

The tokens of a YAML text make up a tree of scalars, lists and tables. A value can be given a
name, by which it is repeated farther on.

## Main definitions

* `ThemeOverride.Yaml.Node`: the tree.
* `ThemeOverride.Yaml.readDocument`: the tree of a text with one document.
-/

namespace ThemeOverride.Yaml

/-- A value before its meaning is known: its tag, if it has one, and what it is made of. -/
inductive Node where
  | scalar (tag : Option String) (plain : Bool) (s : String)
  | list (tag : Option String) (elements : List Node)
  | table (tag : Option String) (fields : List (Node × Node))
  /-- A list or table inside of itself. -/
  | around
  deriving Repr, Inhabited

/-- What is read of a text, with the values that have names. -/
structure Reading where
  scan : Scan
  named : List (String × Node) := []

/-- Reading with a place and names, which may fail. -/
abbrev Reader := StateT Reading (Except YamlStage)

namespace Reader

/-- The next token. -/
def peek : Reader Token := do
  let r ← get
  let scan ← r.scan.ready
  set { r with scan := scan }
  return scan.head

/-- Passes over the next token. -/
def skip : Reader Unit := modify fun r => { r with scan := r.scan.take }

/-- Passes over the next token if it is the given one. -/
def accept (t : Token) : Reader Bool := do
  if (← peek) == t then
    skip
    return true
  return false

/-- Whether the next token is among the given ones. -/
def isOneOf (ts : List Token) : Reader Bool := do return ts.contains (← peek)

/-- Gives a value its name. -/
def name (anchor : Option String) (n : Node) : Reader Unit :=
  match anchor with
  | none => pure ()
  | some a => modify fun r => { r with named := (a, n) :: r.named }

end Reader

open Reader

/-- A scalar that is left out. -/
def emptyNode : Node := .scalar none true ""

/-- The full name of a tag; only two handles are known. -/
def fullTag (handle : Option String) (name : String) : Except YamlStage String :=
  match handle with
  | none => .ok name
  | some "!" => .ok ("!" ++ name)
  | some "!!" => .ok ("tag:yaml.org,2002:" ++ name)
  | some _ => .error .order

/-- Reads the name and the tag in front of a value, in either order. -/
def readMarks : Reader (Option String × Option String) := do
  match ← peek with
  | .anchor a =>
    skip
    match ← peek with
    | .tag handle name =>
      skip
      return (some a, some (← fullTag handle name))
    | _ => return (some a, none)
  | .tag handle name =>
    skip
    let found ← peek
    let tag ← fullTag handle name
    match found with
    | .anchor a =>
      skip
      return (some a, some tag)
    | _ => return (none, some tag)
  | _ => return (none, none)

mutual

/-- Reads a value. In a block, a list may begin; as the value of a key it need not be indented. -/
def readNode (fuel : Nat) (block flush : Bool) : Reader Node :=
  match fuel with
  | 0 => throw .order
  | fuel + 1 => do
    match ← peek with
    | .alias a =>
      skip
      match (← get).named.lookup a with
      | some n => return n
      | none => throw .naming
    | _ =>
      let (anchor, tag) ← readMarks
      let isContent := fun (t : Token) => anchor.isSome || tag.isSome || match t with
        | .scalar .. | .flowListStart | .flowTableStart => true
        | .entry => flush
        | .listStart | .tableStart => block
        | _ => false
      if !(isContent (← peek)) then throw .order
      match anchor with
      | some a => if ((← get).named.lookup a).isSome then throw .naming
      | none => pure ()
      name anchor .around
      let n ← match ← peek with
        | .scalar s plain =>
          skip
          pure (Node.scalar tag plain s)
        | .entry =>
          if flush then pure (Node.list tag (← readFlush fuel))
          else pure (Node.scalar tag true "")
        | .flowListStart =>
          skip
          pure (Node.list tag (← readFlowList fuel true))
        | .flowTableStart =>
          skip
          pure (Node.table tag (← readFlowTable fuel true))
        | .listStart =>
          if block then
            skip
            pure (Node.list tag (← readList fuel))
          else pure (Node.scalar tag true "")
        | .tableStart =>
          if block then
            skip
            pure (Node.table tag (← readTable fuel))
          else pure (Node.scalar tag true "")
        | _ => pure (Node.scalar tag true "")
      name anchor n
      return n

/-- Reads a value unless one of the given tokens shows that it is left out. -/
def readUnless (fuel : Nat) (ends : List Token) (block flush : Bool) : Reader Node :=
  match fuel with
  | 0 => throw .order
  | fuel + 1 => do
    if ← isOneOf ends then return emptyNode else readNode fuel block flush

/-- Reads the elements of a list up to its end. -/
def readList (fuel : Nat) : Reader (List Node) :=
  match fuel with
  | 0 => throw .order
  | fuel + 1 => do
    if ← accept .entry then
      let n ← readUnless fuel [.entry, .blockEnd] true false
      return n :: (← readList fuel)
    if ← accept .blockEnd then return [] else throw .order

/-- Reads the elements of a list that is not indented. -/
def readFlush (fuel : Nat) : Reader (List Node) :=
  match fuel with
  | 0 => throw .order
  | fuel + 1 => do
    if ← accept .entry then
      let n ← readUnless fuel [.entry, .key, .value, .blockEnd] true false
      return n :: (← readFlush fuel)
    return []

/-- Reads the fields of a table up to its end. -/
def readTable (fuel : Nat) : Reader (List (Node × Node)) :=
  match fuel with
  | 0 => throw .order
  | fuel + 1 => do
    let ends := [Token.key, .value, .blockEnd]
    if ← accept .blockEnd then return []
    if !(← accept .key) then throw .order
    let k ← readUnless fuel ends true true
    let v ← if ← accept .value then readUnless fuel ends true true else pure emptyNode
    return (k, v) :: (← readTable fuel)

/-- Reads the elements of a list in brackets up to its end. -/
def readFlowList (fuel : Nat) (first : Bool) : Reader (List Node) :=
  match fuel with
  | 0 => throw .order
  | fuel + 1 => do
    if ← accept .flowListEnd then return []
    if !first then
      if !(← accept .comma) then throw .order
    if ← accept .key then
      let k ← readUnless fuel [.value, .comma, .flowListEnd] false false
      let v ← if ← accept .value then readUnless fuel [.comma, .flowListEnd] false false
        else pure emptyNode
      return .table none [(k, v)] :: (← readFlowList fuel false)
    if ← accept .flowListEnd then return []
    let n ← readNode fuel false false
    return n :: (← readFlowList fuel false)

/-- Reads the fields of a table in brackets up to its end. -/
def readFlowTable (fuel : Nat) (first : Bool) : Reader (List (Node × Node)) :=
  match fuel with
  | 0 => throw .order
  | fuel + 1 => do
    if ← accept .flowTableEnd then return []
    if !first then
      if !(← accept .comma) then throw .order
    if ← accept .key then
      let k ← readUnless fuel [.value, .comma, .flowTableEnd] false false
      let v ← if ← accept .value then readUnless fuel [.comma, .flowTableEnd] false false
        else pure emptyNode
      return (k, v) :: (← readFlowTable fuel false)
    if ← accept .flowTableEnd then return []
    let k ← readNode fuel false false
    return (k, emptyNode) :: (← readFlowTable fuel false)

end

/-- Passes over the marks that end a document, at most `fuel` of them. -/
def skipDocumentEnds (fuel : Nat) : Reader Unit :=
  match fuel with
  | 0 => pure ()
  | fuel + 1 => do if ← accept .documentEnd then skipDocumentEnds fuel

/-- Passes over directives, at most `fuel` of them. -/
def skipDirectives (fuel : Nat) : Reader Unit :=
  match fuel with
  | 0 => pure ()
  | fuel + 1 => do if ← accept .directive then skipDirectives fuel

/-- Whether another document begins. -/
def beginsDocument (fuel : Nat) : Reader Bool := do
  skipDocumentEnds fuel
  if ← isOneOf [.streamEnd] then return false
  skipDirectives fuel
  if ← accept .documentStart then return true else throw .order

/-- Reads the tree of a text with at most one document. -/
def readStream (fuel : Nat) : Reader (Option Node) := do
  let explicit ← isOneOf [.directive, .documentStart, .streamEnd]
  if explicit then
    if !(← beginsDocument fuel) then return none
  let ends := [Token.directive, .documentStart, .documentEnd, .streamEnd]
  let n ← if explicit then readUnless fuel ends true false else readNode fuel true false
  let _ ← accept .documentEnd
  if ← beginsDocument fuel then throw .naming
  return some n

/-- The tree of a text with at most one document. -/
def readDocument (s : String) : Except YamlStage (Option Node) :=
  if s.toList.all isAllowed then
    (·.1) <$> (readStream (16 * s.length + 32)).run { scan := scanStart s }
  else .error .character

end ThemeOverride.Yaml
