import ThemeOverride.Export.Analysis
import ThemeOverride.Text.Path

/-!
# Imports that an override copies

The default export of a source file is copied into the override, and with it the imports it
refers to. Imports are copied as they stand; a module given relative to the source file is given
by its place in the source module instead. Names that the file exports are bound by the override
itself, so they are left out of the copied imports.

## Main definitions

* `ThemeOverride.ImportRecord.modulePath`: the module of an import, seen from the override.
* `ThemeOverride.copiedImports`: the import statements that an override copies.
-/

namespace ThemeOverride

namespace ImportRecord

/-- The module of an import, seen from the override. -/
def modulePath (r : ImportRecord) (directory : String) : String :=
  if r.isRelative then
    String.ofList (normalizePath (joinPath directory.toList r.source.toList))
  else r.source

/-- The bindings of an import that a file with the given exports does not bind itself. -/
def kept (r : ImportRecord) (exported : List String) : List String :=
  (r.bindings.filter fun n => !exported.contains n).eraseDups

/-- The import with only some of its bindings. -/
def rebuild (r : ImportRecord) (kept : List String) (modulePath : String) : String :=
  let texts := fun (braced : Bool) =>
    (r.clauses.filter fun c => c.braced == braced && kept.contains c.localName).map (·.text)
  let parts := texts false ++
    match texts true with
    | [] => []
    | braced => ["\x7b " ++ Text.join ", " braced ++ " \x7d"]
  (if r.typeOnly then "import type" else "import") ++ " " ++ Text.join ", " parts ++
    " from '" ++ modulePath ++ "';"

/-- The statement of an import with its module replaced. -/
def withModule (r : ImportRecord) (source : List Char) (modulePath : String) : String :=
  String.ofList <|
    byteSlice source r.span.1 r.sourceSpan.1 ++ modulePath.toList ++
      byteSlice source r.sourceSpan.2 r.span.2

/-- The statement that an override copies for an import, if it needs one. -/
def copied? (r : ImportRecord) (source : List Char) (exported references : List String)
    (directory : String) (isTypescript : Bool) : Option String :=
  let kept := r.kept exported
  if !(kept.any references.contains) then none
  else if r.typeOnly && !isTypescript then none
  else if kept.length < r.bindings.length then some (r.rebuild kept (r.modulePath directory))
  else if r.isRelative then some (r.withModule source (r.modulePath directory))
  else some (String.ofList (byteSlice source r.span.1 r.span.2))

end ImportRecord

/-- The import statements that the default export of a source file needs in an override. -/
def copiedImports (exports : ExportMap) (source : String) (references : List String)
    (directory : String) (isTypescript : Bool) : List String :=
  exports.imports.filterMap
    (·.copied? source.toList exports.names references directory isTypescript)

end ThemeOverride
