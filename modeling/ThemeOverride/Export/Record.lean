/-!
# Exports and imports of a script

What a script exports and imports, and where in its text it does so.

## Main definitions

* `ThemeOverride.ExportKind`: what an export binds.
* `ThemeOverride.ExportRecord`, `ThemeOverride.ImportRecord`: an exported symbol, an import.
* `ThemeOverride.ExportMap`: all exports and imports of a script.
-/

namespace ThemeOverride

/-- What an export binds, which decides how it is extended. -/
inductive ExportKind where
  | «class»
  | function
  | object
  | «enum»
  | value
  | interface
  | type
  | reference
  deriving DecidableEq, Repr, Inhabited

namespace ExportKind

/-- Every kind of export. -/
def all : List ExportKind :=
  [«class», function, object, «enum», value, interface, type, reference]

/-- The name of a kind. -/
def name : ExportKind → String
  | «class» => "class"
  | function => "function"
  | object => "object"
  | «enum» => "enum"
  | value => "value"
  | interface => "interface"
  | type => "type"
  | reference => "reference"

/-- The kind with a given name. -/
def ofName? (s : String) : Option ExportKind := all.find? (·.name == s)

/-- Whether what an export binds exists for types alone. -/
def isTypeOnly : ExportKind → Bool
  | interface | type => true
  | _ => false

end ExportKind

/-- A symbol that a script exports: its name, `default` for the default export; the stretch of
the export statement in bytes; what it binds; and for the default export the names that its
statement refers to. -/
structure ExportRecord where
  name : String
  span : Nat × Nat := (0, 0)
  kind : ExportKind := .value
  isDefault : Bool := false
  references : List String := []
  deriving DecidableEq, Repr, Inhabited

/-- One binding of an import: the name it introduces, its text, and whether it stands in
braces. -/
structure ImportClause where
  localName : String
  text : String
  braced : Bool := false
  deriving DecidableEq, Repr

/-- An import: its bindings, the stretch of its statement, the module it imports from with the
stretch of that text, and whether it imports types alone. -/
structure ImportRecord where
  span : Nat × Nat
  source : String
  sourceSpan : Nat × Nat
  typeOnly : Bool := false
  clauses : List ImportClause := []
  deriving DecidableEq, Repr

namespace ImportRecord

/-- The names that an import introduces. -/
def bindings (r : ImportRecord) : List String := r.clauses.map (·.localName)

/-- Whether the module is given by its place relative to the script. -/
def isRelative (r : ImportRecord) : Bool := ".".toList.isPrefixOf r.source.toList

end ImportRecord

/-- All exports and imports of a script. -/
structure ExportMap where
  defaultExport : Option ExportRecord
  named : List ExportRecord
  imports : List ImportRecord
  deriving DecidableEq, Repr

/-- The names of the named exports. -/
def ExportMap.names (m : ExportMap) : List String := m.named.map (·.name)

end ThemeOverride
