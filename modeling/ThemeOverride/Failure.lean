import ThemeOverride.Console.Prompt
import ThemeOverride.Disk.Fault

/-!
# Failures

The ways in which making an override can fail, and how each is worded.

## Main definitions

* `ThemeOverride.Malformed`: what is not written as its format asks.
* `ThemeOverride.Failure`: what went wrong.
* `ThemeOverride.Failure.message`: how it is worded.
-/

namespace ThemeOverride

/-- The stage of reading at which a YAML text is found at fault: a character that may not occur,
a token, the order of tokens, a name for a value, or the meaning of a value. -/
inductive YamlStage where
  | character
  | token
  | order
  | naming
  | meaning
  deriving DecidableEq, Repr

/-- What is not written as its format asks. -/
inductive Malformed where
  | manifest
  | yaml (stage : YamlStage)
  | toml
  /-- A list in an environment variable. -/
  | variable
  deriving DecidableEq, Repr

/-- What is wrong with one setting. -/
inductive SettingFault where
  | notText
  | notList
  | unknown
  /-- The settings as a whole are no table. -/
  | notTable
  deriving DecidableEq, Repr

/-- A setting that is wrong: where it stands, and what is wrong with it. -/
structure SettingProblem where
  location : String
  fault : SettingFault
  deriving DecidableEq, Repr

/-- What went wrong while an override was made. -/
inductive Failure where
  /-- Any failure, in its own words. -/
  | general (message : String)
  /-- No directory at or above a path holds the marker of a module. -/
  | moduleNotFound (path marker : String)
  /-- None of the modules searched holds a resource. -/
  | resourceNotFound (type name : String) (searched : List String)
  /-- What was written is no valid script. -/
  | invalidCode (message : String) (context cause : Option String)
  /-- The settings cannot be read or are wrong. -/
  | settings (message : String) (path field : Option String)
  /-- Single settings are wrong, in the file at a path if one is given. -/
  | settingProblems (path : Option String) (problems : List SettingProblem)
  /-- A file could not be written. -/
  | output (path : String) (cause : Option String)
  /-- The disk refused something. -/
  | disk (fault : DiskFault)
  /-- Links lead around in a circle. -/
  | linkLoop
  /-- A file that should hold text does not. -/
  | notText
  /-- A text is not written as its format asks. -/
  | malformed (what : Malformed)
  /-- A manifest holds something else than a table where it should hold one, or a parent that is
  no text. -/
  | manifestShape
  /-- A text is needed where a manifest or the settings hold something else. -/
  | textNeeded
  /-- A path is not below another. -/
  | notBelow
  /-- Keeping styles makes no style file. -/
  | keptStyle
  /-- A question has no answer. -/
  | prompt (fault : Console.PromptFault)
  deriving DecidableEq, Repr

namespace Failure

/-- How a failure is worded. -/
def message : Failure → String
  | general message => message
  | moduleNotFound path marker => "No module ('" ++ marker ++ "') found above '" ++ path ++ "'"
  | resourceNotFound type name searched =>
    String.ofList (Text.capitalizeWord type.toList) ++ " '" ++ name ++ "' was not found" ++
      if searched.isEmpty then "" else " (searched: " ++ Text.join ", " searched ++ ")"
  | invalidCode message context cause =>
    message ++ stated " (while generating " ")" context ++ (cause.map (": " ++ ·)).getD ""
  | settings message path field =>
    message ++ stated " in '" "'" path ++ stated " (field: " ")" field
  | settingProblems path problems =>
    "Invalid configuration: " ++ Text.join ", " (problems.map (·.location)) ++
      stated " in '" "'" path
  | output path cause =>
    "Failed to write output to '" ++ path ++ "'" ++ (cause.map (": " ++ ·)).getD ""
  | disk fault => fault.message
  | linkLoop => "Links lead around in a circle"
  | notText => "A file does not hold text"
  | malformed .manifest => "A manifest is no JSON"
  | malformed (.yaml _) => "The settings are no YAML"
  | malformed .toml => "The settings are no TOML"
  | malformed .variable => "An environment variable holds no JSON"
  | manifestShape => "A manifest does not hold what it should"
  | textNeeded => "A text is needed"
  | notBelow => "A path is not below another"
  | keptStyle => "Keeping styles does not create a style file"
  | prompt _ => "A question has no answer"
where
  /-- A detail between two texts, if it is given and not empty. -/
  stated (before after : String) : Option String → String
    | none | some "" => ""
    | some s => before ++ s ++ after

end Failure

end ThemeOverride
