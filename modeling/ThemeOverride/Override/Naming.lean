import ThemeOverride.Text.Character
import ThemeOverride.Text.Split

/-!
# Names in overrides

The names that an override file gives to what it takes from its source, and the names of the
files themselves.

## Main definitions

* `ThemeOverride.capitalize`: a name with its first character in upper case.
* `ThemeOverride.sourceLocalName`: the name under which an override imports a symbol it extends.
* `ThemeOverride.untypedFileName`: the name of a file when it is written without types.
* `ThemeOverride.stripScriptExtension`: the name of a script without its extension.
-/

namespace ThemeOverride

/-- A name with its first character in upper case. -/
def capitalize (s : String) : String :=
  match s.toList with
  | [] => ""
  | c :: rest => String.ofList (Text.upper c ++ rest)

/-- The name under which an override imports a symbol it extends: the symbol's name behind
`source`, or behind `Source` if it begins in upper case. -/
def sourceLocalName (name : String) : String :=
  match name.toList with
  | [] => "source" ++ capitalize name
  | c :: _ => if Text.isUpper c then "Source" ++ name else "source" ++ capitalize name

/-- Replaces the first of the given endings that a name has, before a line break at its end. -/
def replaceEnding (endings : List String) (replacement : String) (name : String) : String :=
  let (body, newline) := Text.dropNewline name.toList
  match endings.findSome? (Text.dropEnding? · body) with
  | none => name
  | some stem => String.ofList (stem ++ replacement.toList ++ newline)

/-- The name of a file when it is written without types. -/
def untypedFileName (fileName : String) : String :=
  replaceEnding [".tsx", ".ts"] ".js" fileName

/-- The name of a script without its extension. -/
def stripScriptExtension (fileName : String) : String :=
  replaceEnding [".jsx", ".js", ".tsx", ".ts"] "" fileName

end ThemeOverride
