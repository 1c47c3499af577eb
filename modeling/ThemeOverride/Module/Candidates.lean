import ThemeOverride.Journal
import ThemeOverride.Module.Manifest

/-!
# Modules that are searched

The modules that may define a resource, in the order in which they are searched: the parent of
the target module, the parent of that, and so on, and then the fallback modules. They are found
on a trail, which is walked only as far as needed: what lies behind the module that defines the
resource is never looked at.

## Main definitions

* `ThemeOverride.installed`: the root of a module by its name, as seen from a directory.
* `ThemeOverride.Trail`: roots of modules and notes, one after the other, perhaps up to a failure.
* `ThemeOverride.Module.parentRoot`: the root of the parent that a module states.
* `ThemeOverride.candidates`: the trail of the modules that are searched.
-/

namespace ThemeOverride

/-- Whether the name of a module is a path to it. -/
def isPathName (name : String) : Bool := ['.'].isPrefixOf name.toList

/-- Where a module is installed by its name in a directory. -/
def installedIn (name : String) (directory : Path) : Path :=
  (directory.child "node_modules").child name

/-- The root of a module by its name, as seen from a directory, with what is noted. Names that
begin with a full stop are paths from the directory. Other modules are installed in the nearest
directory `node_modules` that holds them. -/
def installed (d : Disk) (marker name : String) (directory : Path) :
    Except Failure (Option Path × List Note) := do
  let base ← resolvePath d directory
  if isPathName name then
    let root ← resolvePath d (base.child name)
    return (if isModuleRoot d marker root then some root else none, [])
  else
    match nearest? base fun above => isModuleRoot d marker (installedIn name above) with
    | some above => return (some (installedIn name above), [])
    | none =>
      return (none, [.detail ("Package " ++ name ++ " is not installed above " ++ base.toString)])

/-- Roots of modules and notes, one after the other, perhaps up to a failure. -/
inductive Trail where
  | done
  | failed (f : Failure)
  | note (n : Note) (rest : Trail)
  | root (p : Path) (rest : Trail)
  deriving Repr

namespace Trail

/-- Notes in front of a trail. -/
def notes (ns : List Note) (rest : Trail) : Trail := ns.foldr .note rest

/-- The roots on a trail. -/
def roots : Trail → List Path
  | done | failed _ => []
  | note _ rest => rest.roots
  | root p rest => p :: rest.roots

/-- The notes on a trail. -/
def allNotes : Trail → List Note
  | done | failed _ => []
  | note n rest => n :: rest.allNotes
  | root _ rest => rest.allNotes

/-- The failure that ends a trail, if one does. -/
def failure? : Trail → Option Failure
  | done => none
  | failed f => some f
  | note _ rest | root _ rest => rest.failure?

end Trail

/-- The trail of the fallback modules that are not among those seen. -/
def fallbackTrail (d : Disk) (settings : Settings) (target : Path) :
    List String → List Path → Trail
  | [], _ => .done
  | name :: rest, seen =>
    match installed d settings.markerFile name target with
    | .error f => .failed f
    | .ok (none, notes) => .notes notes (fallbackTrail d settings target rest seen)
    | .ok (some p, notes) =>
      .notes notes <|
        if seen.contains p then fallbackTrail d settings target rest seen
        else .root p (fallbackTrail d settings target rest (p :: seen))

/-- The root of the parent of a module, if it states one that is installed, with what is noted. -/
def Module.parentRoot (d : Disk) (settings : Settings) (m : Module) :
    Except Failure (Option Path × List Note) := do
  let v ← m.parent d settings
  if v.isVoid then return (none, [])
  match v.text? with
  | none => throw .manifestShape
  | some name =>
    match ← installed d settings.markerFile name m.root with
    | (some p, notes) => return (some p, notes)
    | (none, notes) =>
      return (none, notes ++ [.caution ("Parent module " ++ name ++ " of " ++ m.name.shown ++
        " is not installed")])

/-- The trail of the parent of a module, of the parent of that, and so on, at most `fuel` of
them, up to one that is seen already; `behind` is the trail behind them. -/
def parentTrail (d : Disk) (settings : Settings) (behind : List Path → Trail) :
    Nat → Module → List Path → Trail
  | 0, _, seen => behind seen
  | fuel + 1, current, seen =>
    match current.parentRoot d settings with
    | .error f => .failed f
    | .ok (none, notes) => .notes notes (behind seen)
    | .ok (some p, notes) =>
      .notes notes <|
        if seen.contains p then behind seen
        else
          .root p <|
            match moduleAt d settings p with
            | .error f => .failed f
            | .ok m => parentTrail d settings behind fuel m (p :: seen)

/-- Where the modules may lie that a module states as its parent and the settings as fallback
modules. -/
def statedPaths (d : Disk) (settings : Settings) (m : Module) : List Path :=
  let parent := match m.parent d settings with
    | .ok (.text name) => [name]
    | _ => []
  (parent ++ settings.fallbackModules).flatMap fun name =>
    if isPathName name then [m.root.child name]
    else (m.root :: m.root.ancestors).map (installedIn name)

/-- More than there can be roots of modules: the text of a root has at most `longestPath` bytes, and
a byte or more for each character, of which there are fewer than `2 ^ 21`. -/
def mostRoots : Nat := Nat.pow 2 (21 * longestPath)

/-- The trail of the modules that are searched for a resource. Each parent is looked up from
another root of a module, so there are no more parents than such roots. -/
def candidates (d : Disk) (settings : Settings) (target : Path) : Trail :=
  match moduleAt d settings target with
  | .error f => .failed f
  | .ok m =>
    parentTrail d settings (fallbackTrail d settings m.root settings.fallbackModules)
      mostRoots m [m.root]

end ThemeOverride
