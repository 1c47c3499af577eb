import ThemeOverride.Text.Encoding
import ThemeOverride.Text.Path

/-!
# Disks

A disk holds files, directories and links at places. A place is given by the names that lead to
it from the root, without links on the way; the root itself is always a directory. A disk also
knows the directory that relative paths begin at.

## Main definitions

* `ThemeOverride.Place`, `ThemeOverride.Node`: where something lies, and what it is.
* `ThemeOverride.Disk`: what lies where.
* `ThemeOverride.Disk.node?`, `Disk.put`, `Disk.remove`: reading and changing a place.
* `ThemeOverride.Disk.namesIn`: the names in a directory.

## Main results

* `ThemeOverride.Disk.node?_put`, `Disk.node?_put_of_ne`: a change is seen at its place alone.
-/

namespace ThemeOverride

/-- Where something lies: the names that lead to it from the root. -/
abbrev Place := List String

/-- What lies at a place. -/
inductive Node where
  | file (content : List UInt8)
  | directory
  | link (target : Path)
  deriving DecidableEq, Repr, Inhabited

/-- What lies where, and the directory that relative paths begin at. -/
structure Disk where
  entries : List (Place × Node) := []
  here : Place := []
  deriving Repr, Inhabited

namespace Disk

/-- What lies at a place. -/
def node? (d : Disk) (place : Place) : Option Node :=
  if place.isEmpty then some .directory else d.entries.lookup place

/-- Entries with one changed, or added at the end. -/
def putEntry (place : Place) (node : Node) : List (Place × Node) → List (Place × Node)
  | [] => [(place, node)]
  | (p, n) :: rest => if p == place then (p, node) :: rest else (p, n) :: putEntry place node rest

/-- A disk with something at a place, instead of what lay there. -/
def put (d : Disk) (place : Place) (node : Node) : Disk :=
  { d with entries := putEntry place node d.entries }

/-- A disk without a place and all that lies below it. -/
def remove (d : Disk) (place : Place) : Disk :=
  { d with entries := d.entries.filter fun e => !(place.isPrefixOf e.1) }

/-- What lies on a disk at places where nothing lies on another, in the order of its making. -/
def newIn (d before : Disk) : List (Place × Node) :=
  d.entries.filter fun e => (before.node? e.1).isNone

/-- The name of a place in a directory. -/
def nameIn? (directory place : Place) : Option String :=
  if place.length == directory.length + 1 && directory.isPrefixOf place then place.getLast?
  else none

/-- The names in a directory. -/
def namesIn (d : Disk) (directory : Place) : List String :=
  d.entries.filterMap fun e => nameIn? directory e.1

/-- The place that a path begins at. -/
def start (d : Disk) (p : Path) : Place := if p.isAbsolute then [] else d.here

theorem lookup_putEntry (place : Place) (node : Node) (entries : List (Place × Node)) :
    (putEntry place node entries).lookup place = some node := by
  induction entries with
  | nil => simp [putEntry]
  | cons e rest ih =>
    obtain ⟨p, n⟩ := e
    by_cases h : p = place
    · simp [putEntry, h]
    · have h' : (place == p) = false := by simpa using fun q => h q.symm
      simp [putEntry, h, List.lookup_cons, h', ih]

theorem lookup_putEntry_of_ne {place other : Place} (h : other ≠ place) (node : Node)
    (entries : List (Place × Node)) :
    (putEntry place node entries).lookup other = entries.lookup other := by
  induction entries with
  | nil =>
    have h' : (other == place) = false := by simpa using h
    simp [putEntry, List.lookup_cons, h']
  | cons e rest ih =>
    obtain ⟨p, n⟩ := e
    by_cases hp : p = place
    · have h' : (other == p) = false := by simpa [hp] using h
      simp [putEntry, hp, List.lookup_cons, hp ▸ h']
    · simp [putEntry, hp, List.lookup_cons, ih]

/-- What was put at a place lies there. -/
@[simp] theorem node?_put (d : Disk) {place : Place} (h : place ≠ []) (node : Node) :
    (d.put place node).node? place = some node := by
  simp [node?, put, h, lookup_putEntry]

/-- All other places stay as they were. -/
theorem node?_put_of_ne (d : Disk) {place other : Place} (h : other ≠ place) (node : Node) :
    (d.put place node).node? other = d.node? other := by
  simp [node?, put, lookup_putEntry_of_ne h]

end Disk

end ThemeOverride
