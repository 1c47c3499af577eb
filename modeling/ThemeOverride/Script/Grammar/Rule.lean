import ThemeOverride.Script.Pattern

/-!
# Rules of the grammar and the forms they share

The names of the rules of the script grammar, and the small forms from which their patterns are
put together: keywords, marks, lists, and the end of a statement.

## Main definitions

* `ThemeOverride.Script.Rule`: the rules of the grammar.
* `ThemeOverride.Script.Rule.Scope`: what surrounds an expression.
* `ThemeOverride.Script.Form`: patterns over these rules.
-/

namespace ThemeOverride.Script

namespace Rule

/-- What surrounds an expression: whether an implied terminator may end it, and whether an arrow
function in it may state its result type. -/
structure Scope where
  terminable : Bool
  arrowTypes : Bool := true
  deriving DecidableEq, Repr

/-- Where an implied terminator may end an operand. -/
def Scope.ending (scope : Scope) : Option Ending :=
  if scope.terminable then some ⟨true, false⟩ else none

/-- Inside brackets nothing ends implicitly. -/
def Scope.inside : Scope := ⟨false, true⟩

/-- A statement may end implicitly. -/
def Scope.statement : Scope := ⟨true, true⟩

end Rule

open Rule in
/-- The rules of the script grammar. -/
inductive Rule where
  -- statements
  | statement | declaration | block (operand : Bool) | declarator | declarationList
  | terminator (place : Ending) | blockEnd (operand : Bool)
  | moduleName | propertyDefinition
  -- expressions
  | expressions (scope : Scope) | expression (scope : Scope) | operand (level : Nat) (scope : Scope)
  | unary (scope : Scope) | chain (scope : Scope) | primary (scope : Scope)
  | arrow (scope : Scope) | arguments | pattern | target | destructuring
  | objectMember | propertyName | template | string | callee (scope : Scope)
  -- functions and classes
  | signature (ending : Option Ending) | parameters | parameter | functionRest (operand : Bool)
  | decorator | classRest (declared : Bool) | classMember
  -- markup
  | element | markupName | markupAttribute | markupChild | markupContainer
  -- types
  | type (ending : Option Ending) | plainType (ending : Option Ending)
  | intersection (ending : Option Ending) | postfixType (ending : Option Ending)
  | primaryType (ending : Option Ending)
  | typeArguments | typeParameters | objectType (kind : Kind) | typeMember | tupleMember
  deriving DecidableEq, Repr

/-- A pattern over the rules of the script grammar. -/
abbrev Form := Pattern Rule

namespace Form

/-- A pattern read or left out. -/
def optional (p : Form) : Form := .either p .empty

/-- Patterns read one after the other. -/
def all : List Form → Form
  | [] => .empty
  | [p] => p
  | p :: ps => .seq p (all ps)

/-- Never fits: no word is among none. -/
def never : Form := .token .comments .token (.nameAmong [])

/-- The first pattern that fits. -/
def firstOf : List Form → Form
  | [] => never
  | [p] => p
  | p :: ps => .either p (firstOf ps)

/-- A keyword. -/
def word (w : String) : Form := .token .comments .token (.keyword w)

/-- A mark, where a longer mark would not be read. -/
def mark (m : String) : Form := .token .comments .token (.mark m)

/-- An operator, as long as possible. -/
def op (o : String) : Form := .token .comments .token (.operator o)

/-- Any of the given operators. -/
def ops (os : List String) : Form := .token .comments .token (.operatorAmong os)

/-- A word of the given kind. -/
def name (kind : Kind) : Form := .token .comments kind .word

/-- A keyword that is a node of its own. -/
def named (kind : Kind) (w : String) : Form := .token .comments kind (.keyword w)

/-- A rule of the grammar. -/
def rule (r : Rule) : Form := Pattern.rule r

/-- Patterns with a mark between each two; at least one. -/
def sepBy1 (separator p : Form) : Form := .seq p (.many (.seq separator p))

/-- Patterns with commas between them, of which each may be missing. -/
def commaHoles (p : Form) : Form :=
  .seq (optional p) (.many (.seq (mark ",") (optional p)))

/-- Patterns with commas between them and perhaps one after the last; at least one. -/
def commaList1 (p : Form) : Form := .seq (sepBy1 (mark ",") p) (optional (mark ","))

/-- Patterns with commas between them and perhaps one after the last. -/
def commaList (p : Form) : Form := optional (commaList1 p)

/-- A pattern in round brackets. -/
def parens (p : Form) : Form := all [mark "(", p, mark ")"]

/-- A pattern in braces. -/
def braces (p : Form) : Form := all [mark "\x7b", p, mark "\x7d"]

/-- A pattern in square brackets. -/
def brackets (p : Form) : Form := all [mark "[", p, mark "]"]

/-- Fits where an implied terminator does not end the statement, if one may end it. -/
def goesOn : Option Ending → Form
  | some place => .guard (.goesOn place)
  | none => .empty

/-- Where an implied terminator may end what is no operand. -/
def line : Option Ending := some ⟨false, false⟩

/-- The end of a statement: a semicolon, written or implied. -/
def terminated (operand : Bool) : Form := rule (.terminator ⟨operand, false⟩)

/-- The names that expressions cannot use, because a keyword is expected where they stand. -/
def expressionWords : List String :=
  ["function", "class", "this", "super", "true", "false", "null", "undefined", "typeof", "void",
   "delete", "await", "yield", "import"]

/-- A name in an expression. -/
def variableName : Form := .token .comments .identifier (.nameExcept expressionWords)

/-- The keywords of types, which no type can have as its name. -/
def typeWords : List String :=
  ["infer", "keyof", "typeof", "readonly", "new", "unique", "this", "true", "false", "null",
   "undefined", "void", "any", "number", "boolean", "string", "symbol", "unknown", "never",
   "object", "const"]

/-- A name that a declaration gives to a type. -/
def typeName : Form := name .typeIdentifier

/-- A type ascription. -/
def ascription (ending : Option Ending) : Form :=
  .node .ascription (.seq (mark ":") (rule (.type ending)))

/-- A type ascription or none. -/
def annotated (ending : Option Ending) : Form := optional (ascription ending)

/-- A value that a declaration gives. -/
def initializer (scope : Rule.Scope) : Form :=
  .seq (mark "=") (.field .value (rule (.expression scope)))

end Form

end ThemeOverride.Script
