import ThemeOverride.Failure
import ThemeOverride.Settings.Basic
import ThemeOverride.Text.Character
import ThemeOverride.Value.Json

/-!
# Layers of settings

Each setting is taken from the first layer that has it: a file, the environment, the defaults.
The values of all layers are checked together; what is wrong with them is reported all at once.

## Main definitions

* `ThemeOverride.SettingKey`: the settings by name.
* `ThemeOverride.Environment`, `ThemeOverride.environmentLayer`: the layer of the environment.
* `ThemeOverride.settingsOf`: the settings that layers make up.
-/

namespace ThemeOverride

/-- A setting that is one text. -/
inductive TextKey where
  | markerFile
  | metadataKey
  | parentKey
  | aliasKey
  | defaultModuleType
  | styleExtension
  deriving DecidableEq, Repr

/-- A setting that is a list of texts. -/
inductive ListKey where
  | fallbackModules
  | scriptExtensions
  | lintCommand
  deriving DecidableEq, Repr

/-- A setting. -/
inductive SettingKey where
  | one (key : TextKey)
  | many (key : ListKey)
  deriving DecidableEq, Repr

namespace SettingKey

/-- Every setting. -/
def all : List SettingKey :=
  [one .markerFile, one .metadataKey, one .parentKey, one .aliasKey, one .defaultModuleType,
   many .fallbackModules, many .scriptExtensions, one .styleExtension, many .lintCommand]

/-- The name of a setting. -/
def name : SettingKey → String
  | one .markerFile => "marker_file"
  | one .metadataKey => "metadata_key"
  | one .parentKey => "parent_key"
  | one .aliasKey => "alias_key"
  | one .defaultModuleType => "default_module_type"
  | one .styleExtension => "style_extension"
  | many .fallbackModules => "fallback_source_modules"
  | many .scriptExtensions => "script_extensions"
  | many .lintCommand => "lint_command"

end SettingKey

/-- A text in lower case. -/
def lowerCase (s : String) : String := String.ofList (s.toList.flatMap Text.lower)

/-- Values of settings by their names. -/
abbrev Layer := List (String × Value)

/-- The value of a setting in a layer. Its name may be written in any case, if it is not written
as it is. -/
def Layer.value? (layer : Layer) (key : SettingKey) : Option Value :=
  (layer.lookup key.name).or ((layer.find? fun e => lowerCase e.1 == key.name).map (·.2))

/-- The names in a layer that are none of a setting. -/
def Layer.unknown (layer : Layer) : List String :=
  (layer.map (·.1)).filter fun n => !(SettingKey.all.any fun key => key.name == lowerCase n)

/-- The variables of an environment with their values. -/
abbrev Environment := List (String × String)

/-- The value that an environment has for a setting. A list is written in JSON. -/
def Environment.value? (env : Environment) (key : SettingKey) : Except Failure (Option Value) :=
  match (env.filter fun e => lowerCase e.1 == "extendgen_" ++ key.name).getLast? with
  | none => .ok none
  | some (_, s) =>
    match key with
    | .one _ => .ok (some (.text s))
    | .many _ =>
      match Json.read? s with
      | none => .error (.malformed .variable)
      | some .null => .ok none
      | some v => .ok (some v)

/-- The layer of an environment. -/
def environmentLayer (env : Environment) : List SettingKey → Except Failure Layer
  | [] => .ok []
  | key :: rest =>
    (env.value? key).bind fun v =>
      (environmentLayer env rest).map fun layer => (v.map fun v => (key.name, v)).toList ++ layer

/-- Values checked against what settings need: what they are, or what is wrong with them. -/
abbrev Checked (α : Type) := Except (List SettingProblem) α

/-- The elements of a list from the given one on, which have to be texts. -/
def checkElements (name : String) (n : Nat) : List Value → Checked (List String)
  | [] => .ok []
  | v :: rest =>
    match v.text?, checkElements name (n + 1) rest with
    | some s, .ok ss => .ok (s :: ss)
    | some _, .error problems => .error problems
    | none, checked =>
      .error (⟨name ++ "." ++ toString n, .notText⟩ :: match checked with
        | .ok _ => []
        | .error problems => problems)

/-- A setting that has to be a text. -/
def checkText (layer : Layer) (key : TextKey) (default : String) : Checked String :=
  match layer.value? (.one key) with
  | none => .ok default
  | some (.text s) => .ok s
  | some _ => .error [⟨(SettingKey.one key).name, .notText⟩]

/-- A setting that has to be a list of texts. -/
def checkList (layer : Layer) (key : ListKey) (default : List String) : Checked (List String) :=
  match layer.value? (.many key) with
  | none => .ok default
  | some (.list elements) => checkElements (SettingKey.many key).name 0 elements
  | some _ => .error [⟨(SettingKey.many key).name, .notList⟩]

/-- What is wrong with a checked value. -/
def problemsOf {α : Type} : Checked α → List SettingProblem
  | .ok _ => []
  | .error problems => problems

/-- The settings of a layer, or all that is wrong with it. -/
def checkSettings (layer : Layer) : Checked Settings :=
  let default : Settings := {}
  let marker := checkText layer .markerFile default.markerFile
  let metadata := checkText layer .metadataKey default.metadataKey
  let parent := checkText layer .parentKey default.parentKey
  let aliasKey := checkText layer .aliasKey default.aliasKey
  let type := checkText layer .defaultModuleType default.defaultModuleType
  let fallback := checkList layer .fallbackModules default.fallbackModules
  let extensions := checkList layer .scriptExtensions default.scriptExtensions
  let style := checkText layer .styleExtension default.styleExtension
  let lint := checkList layer .lintCommand default.lintCommand
  match marker, metadata, parent, aliasKey, type, fallback, extensions, style, lint, layer.unknown with
  | .ok a, .ok b, .ok c, .ok d, .ok e, .ok f, .ok g, .ok h, .ok i, [] =>
    .ok ⟨a, b, c, d, e, f, g, h, i⟩
  | _, _, _, _, _, _, _, _, _, unknown =>
    .error (problemsOf marker ++ problemsOf metadata ++ problemsOf parent ++ problemsOf aliasKey ++
      problemsOf type ++ problemsOf fallback ++ problemsOf extensions ++ problemsOf style ++
      problemsOf lint ++ unknown.map (⟨·, .unknown⟩))

/-- A layer on top of another. -/
def Layer.over (upper lower : Layer) : Layer :=
  upper ++ lower.filter fun e => !(upper.any fun f => lowerCase f.1 == e.1)

/-- The settings that a layer on top of the environment makes up. `path` is the file that the
layer comes from, if it does. -/
def settingsOf (env : Environment) (layer : Layer) (path : Option String) :
    Except Failure Settings :=
  (environmentLayer env SettingKey.all).bind fun below =>
    match checkSettings (layer.over below) with
    | .ok settings => .ok settings
    | .error problems => .error (.settingProblems path problems)

end ThemeOverride
