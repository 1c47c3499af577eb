import ThemeOverride.Module.Candidates
import ThemeOverride.Override.Resource

/-!
# Where resources lie

Which module defines a resource, which files the resource has, and where its override goes.

## Main definitions

* `ThemeOverride.resourceIn?`: where a resource lies in a module.
* `ThemeOverride.locate`: where the first module that defines a resource has it.
* `ThemeOverride.fileList`: the files of a resource, in the order in which they are handled.
* `ThemeOverride.targetDirectory`: where the override of a resource goes.
* `ThemeOverride.canExtend`: whether a resource can be extended in a module.
-/

namespace ThemeOverride

/-- Where a resource lies in a module: the file of a query, the directory of other resources. -/
def resourceIn? (d : Disk) (settings : Settings) (root : Path) (type : ResourceType)
    (name : String) : Option Path :=
  let directory := root.join (type.directory name)
  if type == .query then
    (settings.scriptExtensions.map fun e => directory.child (name ++ ".query" ++ e)).find? d.isFile
  else if d.isDirectory directory then some directory
  else none

/-- Where the first module on a trail that defines a resource has it, with what is noted up to
there. `searched` are the modules before the trail. -/
def searchTrail (d : Disk) (settings : Settings) (type : ResourceType) (name : String) :
    Trail → List Path → List Note × Except Failure Path
  | .done, searched =>
    ([], .error (.resourceNotFound type.name name (searched.map Path.toString)))
  | .failed f, _ => ([], .error f)
  | .note n rest, searched =>
    let (ns, r) := searchTrail d settings type name rest searched
    (n :: ns, r)
  | .root p rest, searched =>
    match resourceIn? d settings p type name with
    | some found => ([], .ok found)
    | none => searchTrail d settings type name rest (searched ++ [p])

/-- Where the first module that defines a resource has it, with what is noted. If a source is
given, only the module that it belongs to is searched. -/
def locate (d : Disk) (settings : Settings) (type : ResourceType) (name : String) (target : Path)
    (source : Option Path) : List Note × Except Failure Path :=
  match source with
  | none => searchTrail d settings type name (candidates d settings target) []
  | some p =>
    match moduleRoot d settings.markerFile p with
    | .error f => ([], .error f)
    | .ok root => searchTrail d settings type name (.root root .done) []

/-- The parts of a resource that are handled first, in this order. -/
def leadingParts : List String := ["component", "container", "config", "type"]

/-- The rank of a file of a resource, by the part that its name states. -/
def fileRank (resourceName fileName : String) : Nat :=
  let part := ((Text.pieces '.' (fileName.drop (resourceName.length + 1)).toString).head?).getD ""
  leadingParts.idxOf part

/-- Whether a file of a resource is handled before another: by rank, then by name. -/
def precedes (resourceName a b : String) : Bool :=
  let rankA := fileRank resourceName a
  let rankB := fileRank resourceName b
  rankA < rankB || (rankA == rankB && decide (a ≤ b))

/-- Whether a name in a directory is that of a source file of a resource. -/
def isSourceFile (d : Disk) (settings : Settings) (directory : Path) (resourceName fileName : String) :
    Bool :=
  d.isFile (directory.child fileName) &&
    (resourceName ++ ".").toList.isPrefixOf fileName.toList &&
    settings.scriptExtensions.contains (Path.suffixOf fileName)

/-- The files of a resource, in the order in which they are handled. -/
def fileList (d : Disk) (settings : Settings) (type : ResourceType) (name : String)
    (source : Path) : Except Failure (List String) :=
  if type == .query then .ok [source.name]
  else
    match d.list source with
    | .error fault => .error (.disk fault)
    | .ok names =>
      .ok ((names.filter (isSourceFile d settings source name)).mergeSort (precedes name))

/-- A path seen from the directory for sources; a failure where it is not below it. -/
def belowSources (p : Path) : Except Failure Path :=
  match p.root, p.names with
  | "", "src" :: rest => .ok ⟨"", rest⟩
  | _, _ => .error .notBelow

/-- Where the override of a resource goes. What overrides an extension is put below the name of
the extension, so that it is known what it overrides. -/
def targetDirectory (d : Disk) (relative target : Path) (isExtension : Bool) (sourceName : Value) :
    Except Failure Path := do
  let root ← resolvePath d target
  if !isExtension then return root.join relative
  match sourceName.text? with
  | none => throw .textNeeded
  | some name =>
    let below ← belowSources relative
    return ((root.child "src").child name).join below

/-- Whether a resource can be extended in a module, with what is noted if it cannot: it has to be
there, and in another module. -/
def canExtend (d : Disk) (resource source target : Path) (type : ResourceType) (name : String) :
    Except Failure (List Note × Bool) := do
  if !d.exists resource then
    return ([.caution (type.aliasSuffix ++ " " ++ name ++ " does not exist at " ++
      resource.toString)], false)
  let source ← resolvePath d source
  let target ← resolvePath d target
  if source == target then
    return ([.caution (type.aliasSuffix ++ " " ++ name ++
      " is defined in the target module itself")], false)
  return ([], true)

end ThemeOverride
