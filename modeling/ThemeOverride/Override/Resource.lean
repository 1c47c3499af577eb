import ThemeOverride.Text.Path

/-!
# Resources and style options

The types of resources that can be overridden, where resources of a type lie in a module, and how
the styles of a resource are treated.

## Main definitions

* `ThemeOverride.ResourceType`: components, routes, queries and stores.
* `ThemeOverride.ResourceType.directory`: where a resource lies, relative to its module.
* `ThemeOverride.StyleOption`: keeping, extending or replacing styles.
-/

namespace ThemeOverride

/-- The type of a resource. -/
inductive ResourceType where
  | component
  | route
  | query
  | store
  deriving DecidableEq, Repr, Inhabited

namespace ResourceType

/-- Every type of resource. -/
def all : List ResourceType := [component, route, query, store]

/-- The name of a type. -/
def name : ResourceType → String
  | component => "component"
  | route => "route"
  | query => "query"
  | store => "store"

/-- The type with a given name. -/
def ofName? (s : String) : Option ResourceType := all.find? (·.name == s)

/-- Whether resources of a type carry styles. -/
def hasStyles : ResourceType → Bool
  | component | route => true
  | query | store => false

/-- What a type adds to the alias of a module. -/
def aliasSuffix : ResourceType → String
  | component => "Component"
  | route => "Route"
  | query => "Query"
  | store => "Store"

/-- Where a resource lies, relative to its module. Queries share one directory; resources of
the other types have one each. -/
def directory (type : ResourceType) (resourceName : String) : Path :=
  match type with
  | query => ⟨"", ["src", "query"]⟩
  | component | route | store => (Path.mk "" ["src", type.name]).child resourceName

/-- Whether a file of a resource carries its styles: only the component file of a component or
route does. -/
def carriesStyles (type : ResourceType) (fileName : String) : Bool :=
  type.hasStyles && Text.occursIn ".component".toList fileName.toList

end ResourceType

/-- How the styles of a resource are treated. -/
inductive StyleOption where
  | keep
  | extend
  | override
  deriving DecidableEq, Repr, Inhabited

namespace StyleOption

/-- Every option, in the order in which they are offered. -/
def all : List StyleOption := [keep, extend, override]

/-- The name of an option. -/
def name : StyleOption → String
  | keep => "keep"
  | extend => "extend"
  | override => "override"

/-- The option with a given name. -/
def ofName? (s : String) : Option StyleOption := all.find? (·.name == s)

/-- What an option does, as it is offered. -/
def description : StyleOption → String
  | keep => "Keep the original styles"
  | extend => "Extend the original styles"
  | override => "Override the original styles"

/-- The text of a new style file; keeping styles makes none. -/
def render? (resourceName : String) : StyleOption → Option String
  | keep => none
  | extend => some (body "// Additions to the original ")
  | override => some (body "// Replacement for the original ")
where
  /-- The file below a first line that begins as given. -/
  body (start : String) : String :=
    start ++ resourceName ++ " styles\n\n." ++ resourceName ++ " \x7b\n\x7d\n"

end StyleOption

end ThemeOverride
