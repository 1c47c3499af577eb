/-!
# Settings

What the search for resources and the making of overrides can be set to.

## Main definitions

* `ThemeOverride.Settings`: the settings, with their defaults.
-/

namespace ThemeOverride

/-- The settings. -/
structure Settings where
  /-- The name of the file that marks the root of a module. -/
  markerFile : String := "package.json"
  /-- The field of the marker file that holds what is known of the module. -/
  metadataKey : String := "scandipwa"
  /-- The field that names the parent of a theme. -/
  parentKey : String := "parentTheme"
  /-- The field that holds the alias which a module is imported by. -/
  aliasKey : String := "themeAlias"
  /-- The type of a module that states none. -/
  defaultModuleType : String := "theme"
  /-- The modules that are searched after the parents, in this order. -/
  fallbackModules : List String := ["@scandipwa/scandipwa"]
  /-- The endings of source files. -/
  scriptExtensions : List String := [".ts", ".tsx", ".js", ".jsx"]
  /-- What follows the name of a resource in the name of its style file. -/
  styleExtension : String := ".style.scss"
  /-- The command that tidies created files. -/
  lintCommand : List String := ["npx", "eslint", "--fix"]
  deriving DecidableEq, Repr, Inhabited

end ThemeOverride
