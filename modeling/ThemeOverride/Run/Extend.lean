import ThemeOverride.Export.Analysis
import ThemeOverride.Module.Location
import ThemeOverride.Output.Style
import ThemeOverride.Override.Synthesis
import ThemeOverride.Run.Scene

/-!
# Extending a resource

Makes the override of a resource in a module. The resource is located, and its files are handled
one after the other: for each, the operator chooses what to extend, and the override file is
written where there is none. In the end the created files are tidied.

## Main definitions

* `ThemeOverride.Task`: what is to be extended, and how.
* `ThemeOverride.Job`: a task whose resource and target are found.
* `ThemeOverride.Job.handle`, `Job.handleAll`: handle a file, and files one after the other.
* `ThemeOverride.extend`: makes the override and gives the paths of the created files.
-/

namespace ThemeOverride

open Script

/-- What is to be extended: a resource in the module of a target path, perhaps from the module of
a source path, and in which language. -/
structure Task where
  type : ResourceType
  name : String
  target : Path
  source : Option Path := none
  isTypescript : Bool := false
  deriving Repr

/-- A task whose resource is found at a path of a module, and whose override goes to a
directory. -/
structure Job where
  task : Task
  settings : Settings
  resource : Path
  sourceModule : Module
  directory : Path

/-- What the names of type files hold. -/
def typeFileMarker : String := ".type.ts"

/-- What is left of a source file for its override: its exports, the text of the default export,
and the names that this refers to. -/
structure SourceReading where
  code : String
  exports : ExportMap
  defaultCode : Option String
  references : List String
  hasErrors : Bool

/-- Reads the text of a source file. Without types, the default export loses its assertions. -/
def readSource (code fileName : String) (isTypescript : Bool) : SourceReading :=
  let dialect := Dialect.ofFileName fileName
  let tree := parse dialect code.toList
  let exports := analyzeTree tree isTypescript
  let original := exports.defaultCode? code
  let stripped := if isTypescript then none else
    (original.filter (· != "")).map fun s => stripAssertions dialect s.toList
  { code := code
    exports := exports
    defaultCode := (stripped.map String.ofList).or original
    references := match stripped with
      | some s => references (parse dialect s)
      | none => (exports.defaultExport.map (·.references)).getD []
    hasErrors := tree.hasError }

namespace Job

variable (job : Job)

/-- Where a source file of the resource lies. The resource of a query is its file. -/
def sourcePath (fileName : String) : Path :=
  if job.task.type == .query then job.resource else job.resource.child fileName

/-- Where the override of a source file goes. -/
def targetPath (fileName : String) : Path :=
  job.directory.child (if job.task.isTypescript then fileName else untypedFileName fileName)

/-- Whether a source file holds only types and the override no types. -/
def isSkipped (fileName : String) : Bool :=
  !job.task.isTypescript && Text.occursIn typeFileMarker.toList fileName.toList

/-- What the override of a source file is made from. -/
def plan (fileName : String) (source : SourceReading) (chosen : List ExportRecord)
    (style : Option StyleOption) : OverridePlan :=
  let relative := job.task.type.directory job.task.name
  let moduleName := job.sourceModule.name.shown
  { allExports := source.exports.named
    chosen := chosen
    defaultCode := source.defaultCode
    fileName := fileName
    resourceType := job.task.type
    resourceName := job.task.name
    sourcePath :=
      sourceImportPath moduleName job.sourceModule.aliasName? job.task.type relative fileName
    style := style
    copiedImports :=
      copiedImports source.exports source.code source.references
        (moduleImportDirectory moduleName relative) job.task.isTypescript
    references := source.references
    isTypescript := job.task.isTypescript }

variable {σ : Type} (op : Operator σ)

/-- Asks how styles are treated, and writes the style file that this calls for; gives the answer
and the path of the file if it is new. -/
def treatStyle : Run σ (StyleOption × List Path) := do
  let option ← Run.askStyle op Console.stylePrompt
  if option == .keep then return (option, [])
  let created ← Run.change fun d => createStyle d job.settings job.directory job.task.name option
  return (option, created.toList)

/-- Writes the override of a source file, where it can be made and is not there; gives its path
if it is new. -/
def writeOverride (fileName : String) (plan : OverridePlan) : Run σ (List Path) := do
  match synthesize plan with
  | .error f =>
    Run.note [.caution ("Skipping " ++ fileName ++ ": " ++ f.message)]
    return []
  | .ok content =>
    let p := job.targetPath fileName
    let isNew ← Run.change fun d =>
      let (d, r) := writeNew d p content
      (d, [], r)
    if isNew then return [p]
    Run.note [existsNote fileName]
    return []

/-- Handles a source file whose exports are read: asks what to extend and how styles are treated,
and writes the override. Gives the paths that are new. -/
def override (fileName : String) (source : SourceReading) : Run σ (List Path) := do
  let offered := source.exports.named
  let answer ← Run.askExports op (Console.exportPrompt fileName) offered
  let chosen := chosenAmong offered answer
  let (style, styles) ← if job.task.type.carriesStyles fileName then do
      let (option, created) ← job.treatStyle op
      pure (some option, created)
    else pure (none, [])
  if chosen.isEmpty then
    Run.note [.caution ("Nothing was chosen to extend in " ++ fileName ++ ", skipping.")]
    return styles
  let created ← job.writeOverride fileName (job.plan fileName source chosen style)
  return styles ++ created

/-- Handles a source file; gives the paths that are new. -/
def handle (fileName : String) : Run σ (List Path) := do
  if job.isSkipped fileName then
    Run.note [.caution ("Skipping " ++ fileName ++
      ": type declarations are not generated for JavaScript")]
    return []
  let d ← Run.disk
  if d.exists (job.targetPath fileName) then
    Run.note [existsNote fileName]
    return []
  let code ← Run.ofExcept (readText d (job.sourcePath fileName))
  let source := readSource code fileName job.task.isTypescript
  if source.hasErrors then
    Run.note [.detail (fileName ++ " contains syntax errors, exports may be incomplete")]
  if source.exports.named.isEmpty then
    Run.note [.caution ("No named exports were found in " ++ fileName ++ ", continuing.")]
    return []
  job.override op fileName source

/-- Handles source files one after the other; gives the paths that are new, in order. -/
def handleAll : List String → Run σ (List Path)
  | [] => pure []
  | fileName :: rest => do
    let created ← job.handle op fileName
    return created ++ (← handleAll rest)

end Job

variable {σ : Type} (op : Operator σ)

/-- What tidies the files that a run has created in the module at a root. -/
abbrev Tidier := (settings : Settings) → (root : Path) → (files : List String) → TidyReport

/-- Tidies by the command of the settings, in the root of the module. -/
def commandTidier (run : LintCall → LintOutcome) : Tidier := fun settings root files =>
  tidy run settings.lintCommand (some root.toString) files

/-- Finds the resource of a task and where its override goes, with the files of the resource;
nothing if there is nothing to do. -/
def prepare (settings : Settings) (task : Task) (target : Module) :
    Run σ (Option (Job × List String)) := do
  let d ← Run.disk
  let (notes, located) := locate d settings task.type task.name target.root task.source
  Run.note notes
  match located with
  | .error (.resourceNotFound type name searched) =>
    Run.note [.caution (Failure.resourceNotFound type name searched).message]
    return none
  | .error f => Run.ofExcept (.error f)
  | .ok resource =>
    let source ← Run.ofExcept (moduleAt d settings resource)
    let (notes, possible) ← Run.ofExcept
      (canExtend d resource source.root target.root task.type task.name)
    Run.note notes
    if !possible then return none
    let files ← Run.ofExcept (fileList d settings task.type task.name resource)
    let directory ← Run.ofExcept (targetDirectory d (task.type.directory task.name) target.root
      source.isExtension source.name)
    return some (⟨task, settings, resource, source, directory⟩, files)

/-- Makes the override of a resource; gives the paths of the created files in the order of their
creation. -/
def extend (tidier : Tidier) (settings : Settings) (task : Task) : Run σ (List String) := do
  let d ← Run.disk
  let target ← Run.ofExcept (moduleAt d settings task.target)
  match ← prepare settings task target with
  | none => return []
  | some (job, files) =>
    Run.note [.detail ("Extending " ++ job.resource.toString ++ " into " ++
      job.directory.toString ++ ": " ++ Text.join ", " files)]
    let created := (← job.handleAll op files).map Path.toString
    -- the tidier is given a copy of the list, so what it leaves of that is not what is answered
    let report := tidier settings target.root created
    report.calls.forM fun call => Run.happen (.called call)
    Run.note report.notes
    match report.refused with
    | none => return created
    | some reason =>
      Run.note [.caution ("Lint auto-fix failed: " ++ reason)]
      return created

end ThemeOverride
