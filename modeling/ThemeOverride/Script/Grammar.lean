import ThemeOverride.Script.Grammar.Statements

/-!
# The grammar of scripts

The pattern of each rule of the script grammar.

## Main definitions

* `ThemeOverride.Script.grammar`: the pattern of each rule in a dialect.
-/

namespace ThemeOverride.Script

/-- The pattern of each rule of the grammar, in a dialect. -/
def grammar (dialect : Dialect) : Rule → Form
  | .statement => Form.statement
  | .declaration => Form.declaration
  | .block operand => Form.block operand
  | .declarator => Form.declarator
  | .declarationList => Form.declarationList
  | .terminator place => Form.terminator place
  | .blockEnd operand => Form.blockEnd operand
  | .moduleName => Form.moduleName
  | .propertyDefinition => Form.propertyDefinition
  | .expressions scope => Form.expressions scope
  | .expression scope => Form.expression scope
  | .operand level scope => Form.operand level scope
  | .unary scope => Form.unary dialect scope
  | .chain scope => Form.chain scope
  | .primary scope => Form.primary dialect scope
  | .arrow scope => Form.arrow scope
  | .arguments => Form.arguments
  | .pattern => Form.pattern
  | .target => Form.target
  | .destructuring => Form.destructuring
  | .objectMember => Form.objectMember
  | .propertyName => Form.propertyName
  | .template => Form.template
  | .string => Form.string
  | .callee scope => Form.callee scope
  | .signature ending => Form.signature ending
  | .parameters => Form.parameters
  | .parameter => Form.parameter
  | .functionRest operand => Form.functionRest operand
  | .decorator => Form.decorator
  | .classRest declared => Form.classRest declared
  | .classMember => Form.classMember
  | .element => Form.element
  | .markupName => Form.markupName
  | .markupAttribute => Form.markupAttribute
  | .markupChild => Form.markupChild
  | .markupContainer => Form.markupContainer
  | .type ending => Form.type ending
  | .plainType ending => Form.plainType ending
  | .intersection ending => Form.intersection ending
  | .postfixType ending => Form.postfixType ending
  | .primaryType ending => Form.primaryType ending
  | .typeArguments => Form.typeArguments
  | .typeParameters => Form.typeParameters
  | .objectType kind => Form.objectType kind
  | .typeMember => Form.typeMember
  | .tupleMember => Form.tupleMember

end ThemeOverride.Script
