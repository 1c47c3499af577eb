import ThemeOverride.Module.Manifest
import ThemeOverride.Settings.Layer
import ThemeOverride.Value.Toml
import ThemeOverride.Value.Yaml

/-!
# Finding the settings

The settings are taken from one file: the one that is asked for, or else the first there is in
the current directory. A project file counts only if it has a table for the settings. Without a
file, the environment and the defaults make up the settings.

## Main definitions

* `ThemeOverride.SettingsSource`, `ThemeOverride.settingsSource`: where the settings come from.
* `ThemeOverride.loadSettings`: the settings.
-/

namespace ThemeOverride

/-- The names of the settings files, the first first. -/
def settingsFiles : List String := ["extendgen.yaml", "extendgen.yml"]

/-- The name of the project file. -/
def projectFile : String := "pyproject.toml"

/-- The value of a settings file; nothing there counts as an empty table. -/
def readSettingsFile (d : Disk) (p : Path) : Except Failure Value :=
  (readText d p).bind fun s =>
    match Yaml.read s with
    | .error stage => .error (.malformed (.yaml stage))
    | .ok v => .ok (if v.isVoid then .table [] else v)

/-- The table for the settings among the tables for tools. -/
def toolTable? (tools : Value) : Except Failure (Option Value) :=
  match tools with
  | .table fields => .ok (Value.lookup? "extendgen" fields)
  | .text s => if Text.occursIn "extendgen".toList s.toList then .error .textNeeded else .ok none
  | .list elements =>
    if elements.any fun v => v.text? == some "extendgen" then .error .textNeeded else .ok none
  | _ => .error .textNeeded

/-- The table for the settings in a project file, if it has one. -/
def readProjectFile (d : Disk) (p : Path) : Except Failure (Option Value) :=
  (readText d p).bind fun s =>
    match Toml.read? s with
    | none => .error (.malformed .toml)
    | some v => toolTable? ((v.get? "tool").getD (.table []))

/-- The layer that a value is; all its keys have to be texts. -/
def layerOf (v : Value) (path : String) : Except Failure Layer :=
  match v with
  | .table fields =>
    if fields.all fun f => f.1.text?.isSome then
      .ok (fields.filterMap fun f => f.1.text?.map (·, f.2))
    else .error .textNeeded
  | _ => .error (.settingProblems (some path) [⟨"", .notTable⟩])

/-- Where the settings come from, besides the environment: a value from a file, or nothing. -/
inductive SettingsSource where
  | file (path : String) (v : Value)
  | none

/-- Where the settings come from: the file asked for, or else the first there is. -/
def settingsSource (d : Disk) (path : Option String) : Except Failure SettingsSource :=
  let here : Path := ⟨"/", d.here⟩
  match path.filter (· != "") with
  | some path =>
    let p := Path.ofString path
    if d.exists p then (readSettingsFile d p).map (.file path)
    else .error (.settings "Configuration file not found" (some path) none)
  | none =>
    match (settingsFiles.map here.child).find? d.exists with
    | some p => (readSettingsFile d p).map (.file p.toString)
    | none =>
      let p := here.child projectFile
      if d.exists p then
        (readProjectFile d p).map fun v => (v.map (SettingsSource.file p.toString)).getD .none
      else .ok .none

/-- The settings. -/
def loadSettings (d : Disk) (env : Environment) (path : Option String) : Except Failure Settings :=
  (settingsSource d path).bind fun source =>
    match source with
    | .none => settingsOf env [] none
    | .file path v => (layerOf v path).bind fun layer => settingsOf env layer (some path)

end ThemeOverride
