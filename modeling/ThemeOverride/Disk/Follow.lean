import ThemeOverride.Disk.Basic
import ThemeOverride.Disk.Fault

/-!
# Following paths

A path is followed name by name from the root or the current directory. A link on the way is
replaced by what it leads to. What lies at the end of a path is found, or the directory that
would hold it.

A path can also be resolved: the path without links and without names that lead up that leads to
the same place. Names that lead nowhere are kept as they are.

## Main definitions

* `ThemeOverride.Found`: where a path ends.
* `ThemeOverride.Disk.follow`: follows a path, with or without a link at its end.
* `ThemeOverride.Disk.resolve?`: a path without links; nothing where links lead around in a circle.
-/

namespace ThemeOverride

/-- Where a path ends: at something, or in a directory that does not hold its last name. -/
inductive Found where
  | node (place : Place) (node : Node)
  | vacant (place : Place)
  deriving DecidableEq, Repr

namespace Disk

variable (d : Disk)

/-- Follows names from a place. A link is entered by `enter`, from where it begins with the names
that it stands for and those behind it; a link at the end only if `atEnd` says so. -/
def followNames (enter : Place → List String → Except DiskCause Found) (atEnd : Bool) :
    Place → List String → Except DiskCause Found
  | place, [] => .ok (.node place .directory)
  | place, name :: rest =>
    if name == ".." then followNames enter atEnd place.dropLast rest
    else
      let next := place ++ [name]
      match d.node? next with
      | none => if rest.isEmpty then .ok (.vacant next) else .error .missing
      | some .directory => followNames enter atEnd next rest
      | some (.file content) =>
        if rest.isEmpty then .ok (.node next (.file content)) else .error .notDirectory
      | some (.link target) =>
        if rest.isEmpty && !atEnd then .ok (.node next (.link target))
        else enter (if target.isAbsolute then [] else place) (target.names ++ rest)

/-- Follows names from a place through at most the given number of links. -/
def followLinks (atEnd : Bool) : Nat → Place → List String → Except DiskCause Found
  | 0 => followNames d (fun _ _ => .error .linkLoop) atEnd
  | n + 1 => followNames d (followLinks atEnd n) atEnd

/-- The most links that are followed on one way. -/
def mostLinks : Nat := 40

/-- Follows a path; a link at its end too, if `atEnd` says so. -/
def follow (atEnd : Bool) (p : Path) : Except DiskCause Found :=
  followLinks d atEnd mostLinks (d.start p) p.names

/-- The way that a path leads without links, or the names of a way that leads around in a
circle. -/
inductive Way where
  | clear (place : Place)
  | stuck (names : List String)
  deriving DecidableEq, Repr

/-- Finds the way of names from a place. A link is entered by `enter`, with the links that are
being entered; one of these is not entered again. -/
def wayOfNames (enter : List Place → Place → List String → Way) (entered : List Place) :
    Place → List String → Way
  | place, [] => .clear place
  | place, name :: rest =>
    if name == ".." then wayOfNames enter entered place.dropLast rest
    else
      let next := place ++ [name]
      match d.node? next with
      | some (.link target) =>
        if entered.contains next then .stuck (next ++ rest)
        else
          match enter (next :: entered) (if target.isAbsolute then [] else place) target.names with
          | .clear p => wayOfNames enter entered p rest
          | .stuck names => .stuck (names ++ rest)
      | _ => wayOfNames enter entered next rest

/-- Finds the way of names from a place, entering links in links at most `depth` deep. -/
def wayThrough : Nat → List Place → Place → List String → Way
  | 0 => wayOfNames d fun _ place names => .stuck (place ++ names)
  | depth + 1 => wayOfNames d (wayThrough depth)

/-- Names without those that lead up, read as if there were no links. -/
def plainNames (names : List String) : Place :=
  names.foldl (fun place name => if name == ".." then place.dropLast else place ++ [name]) []

/-- A path without links and without names that lead up; nothing where links lead around in a
circle. Links can be entered at most as deep as there are entries. -/
def resolve? (p : Path) : Option Path :=
  match wayThrough d d.entries.length [] (d.start p) p.names with
  | .clear place => some ⟨"/", place⟩
  | .stuck names =>
    let path : Path := ⟨"/", plainNames names⟩
    match d.follow true path with
    | .error .linkLoop => none
    | _ => some path

end Disk

end ThemeOverride
