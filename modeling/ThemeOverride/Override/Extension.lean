import ThemeOverride.Export.Record
import ThemeOverride.Override.Naming

/-!
# Extensions of exports

For each export that an override extends, the override file holds a scaffold: an export of the
same name made from the original, with a place for what is added.

## Main definitions

* `ThemeOverride.mapsToProps`: whether a function computes the properties of a component.
* `ThemeOverride.scaffold`, `ThemeOverride.renderExtension`: the scaffold that extends an export.
* `ThemeOverride.chosenAmong`: the exports that an answer chooses.
* `ThemeOverride.partitionExports`: the exports passed on and those extended.
-/

namespace ThemeOverride

/-- Whether a function computes the properties of a component, by its name: `map…ToProps`. -/
def mapsToProps (name : String) : Bool :=
  let (body, _) := Text.dropNewline name.toList
  "map".toList.isPrefixOf body && "ToProps".toList.isSuffixOf body && decide (10 ≤ body.length) &&
    ((body.drop 3).take (body.length - 10)).all Text.isWord

/-- The depth of a line within a declaration. -/
def indent : String := "    "

/-- The scaffold that makes an export of a kind from the original, which is imported as `source`.
Functions that compute the properties of a component answer with an object. -/
def scaffold (kind : ExportKind) (computesProps isTypescript : Bool) (name source : String) :
    String :=
  let typed := if isTypescript then ": typeof " ++ source else ""
  let extendNote := indent ++ "// TODO extend " ++ name ++ "\n"
  match kind with
  | .class =>
    "export class " ++ name ++ " extends " ++ source ++ " \x7b\n" ++
      indent ++ "// TODO implement logic\n\x7d"
  | .function =>
    if computesProps then
      "export const " ++ name ++ typed ++ " = (...args) => (\x7b\n" ++
        indent ++ "..." ++ source ++ "(...args),\n" ++ extendNote ++ "\x7d);"
    else "export const " ++ name ++ typed ++ " = (...args) => " ++ source ++ "(...args);"
  | .object =>
    "export const " ++ name ++ typed ++ " = \x7b\n" ++
      indent ++ "..." ++ source ++ ",\n" ++ extendNote ++ "\x7d;"
  | .interface =>
    "export interface " ++ name ++ " extends " ++ source ++ " \x7b\n" ++ extendNote ++ "\x7d"
  | .type =>
    "export type " ++ name ++ " = " ++ source ++ " & \x7b\n" ++ extendNote ++ "\x7d;"
  | .enum =>
    if isTypescript then
      "export const " ++ name ++ " = " ++ source ++ ";\n" ++
        "export type " ++ name ++ " = " ++ source ++ ";"
    else "export const " ++ name ++ " = " ++ source ++ ";"
  | .value | .reference => "export const " ++ name ++ " = " ++ source ++ ";"

/-- The scaffold that extends an export and keeps what it is to others. -/
def renderExtension (record : ExportRecord) (isTypescript : Bool) : String :=
  scaffold record.kind (mapsToProps record.name) isTypescript record.name
    (sourceLocalName record.name)

/-- The exports that an answer chooses, in the order in which they were offered. What was not
offered cannot be chosen. -/
def chosenAmong (offered answer : List ExportRecord) : List ExportRecord :=
  offered.filter answer.contains

/-- The exports passed on and those extended, each in the order of the source. -/
def partitionExports (all chosen : List ExportRecord) : List ExportRecord × List ExportRecord :=
  all.partition fun r => !(chosen.any (·.name == r.name))

end ThemeOverride
