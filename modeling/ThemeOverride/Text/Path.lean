import ThemeOverride.Text.Split

/-!
# Paths

A path is a root, which is empty for relative paths, and the names below it. Empty names and
names that mean the same directory are dropped when a path is read; names that mean the
directory above are kept, since links may make them lead elsewhere.

## Main definitions

* `ThemeOverride.Path`: paths.
* `ThemeOverride.Path.ofString`, `toString`: reading and writing paths.
* `ThemeOverride.Path.join`: a path seen from another.
* `ThemeOverride.normalizePath`: a path text without needless names.
-/

namespace ThemeOverride

/-- A path: its root, which is empty for relative paths, and the names below it. -/
structure Path where
  root : String
  names : List String
  deriving DecidableEq, Repr, Inhabited

namespace Path

/-- The names of a path text that lead anywhere. -/
def namesOf (s : List Char) : List String :=
  ((Text.splitAt '/' s).filter fun n => !(n.isEmpty || n == ['.'])).map String.ofList

/-- The root of a path text. Exactly two slashes are a root of their own. -/
def rootOf : List Char → String
  | '/' :: '/' :: '/' :: _ => "/"
  | '/' :: '/' :: _ => "//"
  | '/' :: _ => "/"
  | _ => ""

/-- Reads a path. -/
def ofString (s : String) : Path := ⟨rootOf s.toList, namesOf s.toList⟩

/-- Writes a path; the empty relative path is a single full stop. -/
protected def toString (p : Path) : String :=
  if p.root == "" && p.names.isEmpty then "." else p.root ++ Text.join "/" p.names

instance : ToString Path := ⟨Path.toString⟩

/-- Whether a path begins at a root. -/
def isAbsolute (p : Path) : Bool := p.root != ""

/-- A path seen from another: itself if it is absolute, below the other otherwise. -/
def join (p q : Path) : Path := if q.isAbsolute then q else ⟨p.root, p.names ++ q.names⟩

/-- A path text seen from a path. -/
def child (p : Path) (s : String) : Path := p.join (ofString s)

/-- The parts of a path: its root, if any, and its names. -/
def parts (p : Path) : List String := if p.isAbsolute then p.root :: p.names else p.names

/-- The last name of a path, or nothing. -/
def name (p : Path) : String := p.names.getLast?.getD ""

/-- The path above; a path without names is its own. -/
def parent (p : Path) : Path := ⟨p.root, p.names.dropLast⟩

/-- The paths above a path, the nearest first. -/
def ancestors (p : Path) : List Path := go p.names.length p
where
  /-- At most `n` paths above. -/
  go : Nat → Path → List Path
    | 0, _ => []
    | n + 1, p => p.parent :: go n p.parent

/-- The last full stop of a file name and what follows it, unless the name begins or ends with
it. -/
def suffixOf (name : String) : String :=
  let cs := name.toList
  let after := (cs.reverse.takeWhile (· != '.')).reverse
  let dot := cs.length - after.length - 1
  if after.length < cs.length && 0 < dot && !after.isEmpty then String.ofList ('.' :: after)
  else ""

end Path

/-- Puts a name on a stack of names: a full stop does nothing, two take the last name off again,
unless there is none to take off. -/
def pushName (rooted : Bool) (stack : List (List Char)) (name : List Char) : List (List Char) :=
  if name.isEmpty || name == ['.'] then stack
  else if name == ['.', '.'] then
    match stack with
    | [] => if rooted then [] else [name]
    | top :: below => if top == ['.', '.'] then name :: stack else below
  else name :: stack

/-- A path text without needless names: the names that lead up again are taken back as far as
possible. -/
def normalizePath (s : List Char) : List Char :=
  let root := (Path.rootOf s).toList
  let names := ((Text.splitAt '/' s).foldl (pushName !root.isEmpty) []).reverse
  match root ++ ['/'].intercalate names with
  | [] => ['.']
  | result => result

/-- A path text seen from a directory. -/
def joinPath (directory s : List Char) : List Char :=
  if ['/'].isPrefixOf s || directory.isEmpty then s
  else if ['/'].isSuffixOf directory then directory ++ s
  else directory ++ '/' :: s

end ThemeOverride
