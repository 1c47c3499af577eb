import ThemeOverride.Override.CopiedImport
import ThemeOverride.Override.Extension
import ThemeOverride.Override.Resource
import ThemeOverride.Failure

/-!
# Override files

An override file holds, in this order and with a blank line between each two: the imports it
needs, the exports it passes on, a scaffold for each export it extends, and the default export of
the source file as it stands.

## Main definitions

* `ThemeOverride.sourceImportPath`: where an override imports its source from.
* `ThemeOverride.OverridePlan`: all that an override file is made from.
* `ThemeOverride.OverridePlan.sections`, `OverridePlan.text`: the parts of the file, and the file.
* `ThemeOverride.synthesize`: the file, if it can be read as a script.
-/

namespace ThemeOverride

open Script

/-- The directory of a source file, as seen from other modules. -/
def moduleImportDirectory (moduleName : String) (directory : Path) : String :=
  moduleName ++ "/" ++ directory.toString

/-- Where an override imports its source from. A module with an alias is imported through it,
followed by the type of the resource; the first two names of the directory say no more. Other
modules are imported by their name. -/
def sourceImportPath (moduleName : String) (moduleAlias : Option String) (type : ResourceType)
    (directory : Path) (fileName : String) : String :=
  let stem := stripScriptExtension fileName
  match moduleAlias.filter (· != "") with
  | some aliasName =>
    Text.join "/" ((aliasName ++ type.aliasSuffix) :: directory.parts.drop 2 ++ [stem])
  | none => moduleImportDirectory moduleName directory ++ "/" ++ stem

/-- All that an override file is made from. -/
structure OverridePlan where
  allExports : List ExportRecord
  chosen : List ExportRecord
  defaultCode : Option String
  fileName : String
  resourceType : ResourceType
  resourceName : String
  sourcePath : String
  style : Option StyleOption := none
  copiedImports : List String := []
  references : List String := []
  isTypescript : Bool := false

namespace OverridePlan

variable (plan : OverridePlan)

/-- Names in braces behind a keyword, on one line if there is just one. -/
def braced (keyword : String) (names : List String) (path : String) : String :=
  match names with
  | [name] => keyword ++ " \x7b " ++ name ++ " \x7d from '" ++ path ++ "';"
  | _ =>
    keyword ++ " \x7b\n" ++ Text.join "" (names.map fun n => indent ++ n ++ ",\n") ++
      "\x7d from '" ++ path ++ "';"

/-- The exports passed on. -/
def passthrough : List ExportRecord := (partitionExports plan.allExports plan.chosen).1

/-- The exports extended. -/
def extended : List ExportRecord := (partitionExports plan.allExports plan.chosen).2

/-- What the override imports from its source: the exports it extends, under another name, and
those that the default export refers to. -/
def specifiers : List String :=
  plan.allExports.filterMap fun r =>
    if plan.extended.any (·.name == r.name) then
      some (r.name ++ " as " ++ sourceLocalName r.name)
    else if plan.references.contains r.name then some r.name
    else none

/-- The directory that the source is imported from. -/
def sourceDirectory : String :=
  let names := Text.pieces '/' plan.sourcePath
  if names.length < 2 then plan.sourcePath else Text.join "/" names.dropLast

/-- The imports of style files. -/
def styleImports : List String :=
  if !plan.resourceType.carriesStyles plan.fileName then []
  else
    let own := "import './" ++ plan.resourceName ++ ".style';"
    match plan.style with
    | some .extend =>
      ["import '" ++ plan.sourceDirectory ++ "/" ++ plan.resourceName ++ ".style';", own]
    | some .override => [own]
    | some .keep | none => []

/-- All imports, one on each line. -/
def imports : List String :=
  plan.copiedImports ++
    (match plan.specifiers with
      | [] => []
      | specifiers => [braced "import" specifiers plan.sourcePath]) ++
    plan.styleImports

/-- The names passed on that exist for types alone, where the override may say so. -/
def typePassthrough : List String :=
  (plan.passthrough.filter fun r => plan.isTypescript && r.kind.isTypeOnly).map (·.name)

/-- The other names passed on. -/
def valuePassthrough : List String :=
  (plan.passthrough.map (·.name)).filter fun n => !plan.typePassthrough.contains n

/-- The clause that passes names on, if there are any. -/
def passClause (keyword : String) (names : List String) : List String :=
  if names.isEmpty then [] else [braced keyword names plan.sourcePath]

/-- The parts of the override file, in their order. -/
def sections : List String :=
  ([Text.join "\n" plan.imports] ++
    plan.passClause "export" plan.valuePassthrough ++
    plan.passClause "export type" plan.typePassthrough ++
    plan.extended.map (renderExtension · plan.isTypescript) ++
    plan.defaultCode.toList).filter (· != "")

/-- The text of the override file. -/
def text : String := Text.join "\n\n" plan.sections ++ "\n"

/-- The name of the override file. -/
def outputName : String :=
  if plan.isTypescript then plan.fileName else untypedFileName plan.fileName

end OverridePlan

/-- The text of an override file, if it can be read as a script. -/
def synthesize (plan : OverridePlan) : Except Failure String :=
  if hasSyntaxErrors (Dialect.ofFileName plan.outputName) plan.text.toList then
    .error (.invalidCode "Generated code has invalid syntax" (some plan.outputName) none)
  else .ok plan.text

end ThemeOverride
