import ThemeOverride.Disk.Access
import ThemeOverride.Failure
import ThemeOverride.Settings.Basic
import ThemeOverride.Value.Json

/-!
# Modules and their manifests

A module is a directory that holds a marker file, its manifest. A path belongs to the nearest
module at or above it. The manifest states the name, the type, the alias and the parent of the
module; what it does not state, or states as empty, takes a default.

## Main definitions

* `ThemeOverride.readText`: the text of a file.
* `ThemeOverride.moduleRoot`: the root of the module that a path belongs to.
* `ThemeOverride.Module`, `ThemeOverride.moduleAt`: what is known of a module.
* `ThemeOverride.Module.parent`: the parent that a module states.
-/

namespace ThemeOverride

/-- The text of the file at a path, with line feeds for all line breaks. -/
def readText (d : Disk) (p : Path) : Except Failure String :=
  match d.read p with
  | .error fault => .error (.disk fault)
  | .ok content =>
    match Text.decode? content with
    | none => .error .notText
    | some s => .ok (String.ofList (Text.unifyLines s.toList))

/-- A path without links. -/
def resolvePath (d : Disk) (p : Path) : Except Failure Path :=
  match d.resolve? p with
  | none => .error .linkLoop
  | some path => .ok path

/-- The nearest directory at or above a directory that passes a test. -/
def nearest? (directory : Path) (test : Path → Bool) : Option Path :=
  (directory :: directory.ancestors).find? test

/-- Whether a directory is the root of a module. -/
def isModuleRoot (d : Disk) (marker : String) (directory : Path) : Bool :=
  d.isFile (directory.child marker)

/-- The root of the module that a path belongs to. What lies at the path is asked for first, which
a system refuses if the path is too long. -/
def moduleRoot (d : Disk) (marker : String) (p : Path) : Except Failure Path :=
  (resolvePath d p).bind fun start =>
    if isTooLong start.toString then .error (.disk (Disk.faultAt start .linkLoop)) else
    let directory := if d.isDirectory start then start else start.parent
    match nearest? directory (isModuleRoot d marker) with
    | some root => .ok root
    | none => .error (.moduleNotFound start.toString marker)

/-- What is known of a module: its root, and its name, type and alias as they are stated. -/
structure Module where
  root : Path
  name : Value
  type : Value
  «alias» : Value
  deriving Repr, Inhabited

/-- The manifest of the module at a root. -/
def manifest (d : Disk) (settings : Settings) (root : Path) : Except Failure Value :=
  (readText d (root.child settings.markerFile)).bind fun s =>
    match Json.read? s with
    | none => .error (.malformed .manifest)
    | some v => .ok v

/-- What a value holds for a text; a failure where the value is no table. -/
def fieldOf (v : Value) (key : String) : Except Failure Value :=
  match v with
  | .table fields => .ok ((Value.lookup? key fields).getD .null)
  | _ => .error .manifestShape

/-- What a manifest says about its module, which may be nothing. -/
def metadata (settings : Settings) (m : Value) : Except Failure Value :=
  (fieldOf m settings.metadataKey).map fun v => if v.isVoid then .table [] else v

/-- A value, or another one where it counts as not given. -/
def orElse (v default : Value) : Value := if v.isVoid then default else v

/-- What is known of the module that a path belongs to. -/
def moduleAt (d : Disk) (settings : Settings) (p : Path) : Except Failure Module := do
  let root ← moduleRoot d settings.markerFile p
  let m ← manifest d settings root
  let about ← metadata settings m
  let name ← fieldOf m "name"
  let type ← fieldOf about "type"
  let aliasName ← fieldOf about settings.aliasKey
  return ⟨root, orElse name (.text root.name), orElse type (.text settings.defaultModuleType),
    aliasName⟩

namespace Module

/-- The parent that a module states. -/
def parent (d : Disk) (settings : Settings) (m : Module) : Except Failure Value := do
  let v ← manifest d settings m.root
  let about ← metadata settings v
  fieldOf about settings.parentKey

/-- Whether a module is an extension. -/
def isExtension (m : Module) : Bool := m.type.text? == some "extension"

/-- The alias that a module is imported by, if it has one. -/
def aliasName? (m : Module) : Option String :=
  if m.«alias».isVoid then none else some m.«alias».shown

end Module

end ThemeOverride
