/-!
# Kinds of syntax nodes

The syntax trees of scripts are built from nodes of these kinds. A kind says what a stretch of
text is; the field of a child says which part it plays in its parent.

## Main definitions

* `ThemeOverride.Script.Kind`: the kinds of nodes and leaves.
* `ThemeOverride.Script.Field`: the parts of a node that are looked up by name.
* `ThemeOverride.Script.Dialect`: scripts with markup, and scripts with type assertions.
-/

namespace ThemeOverride.Script

/-- The two dialects of scripts: one writes markup elements as expressions, the other writes
type assertions in angle brackets instead. -/
inductive Dialect where
  | markup
  | typed
  deriving DecidableEq, Repr, Inhabited

/-- The part that a child plays in its parent, where that part is looked up. -/
inductive Field where
  | name
  | alias
  | value
  | declaration
  | source
  deriving DecidableEq, Repr

/-- What a node or leaf of a syntax tree is. -/
inductive Kind where
  -- leaves without a name of their own
  | token | terminator
  -- what may stand between any two tokens
  | comment
  -- what could not be read
  | error
  -- the whole and its statements
  | program | hashBang
  | exportStatement | exportClause | exportSpecifier | namespaceExport
  | importStatement | importClause | namespaceImport | namedImports | importSpecifier
  | importRequire | importAttribute
  | variableDeclaration | lexicalDeclaration | variableDeclarator
  | functionDeclaration | generatorDeclaration | functionSignature
  | classDeclaration | abstractClassDeclaration | interfaceDeclaration | typeAliasDeclaration
  | enumDeclaration | enumBody | enumAssignment
  | ambientDeclaration | moduleDeclaration | namespaceDeclaration | importAlias
  | block | expressionStatement | ifStatement | elseClause
  | switchStatement | switchBody | switchCase | switchDefault
  | forStatement | forInStatement | whileStatement | doStatement
  | tryStatement | catchClause | finallyClause | withStatement
  | breakStatement | continueStatement | debuggerStatement | returnStatement | throwStatement
  | emptyStatement | labeledStatement | label
  -- names and literals
  | identifier | propertyName | privateName | computedName | shorthandProperty
  | undefinedLiteral | thisExpression | superExpression | trueLiteral | falseLiteral | nullLiteral
  | number | string | stringFragment | escape | templateString | templateSubstitution
  | regex | regexPattern | regexFlags
  -- expressions
  | object | array | pair | spread | method
  | functionExpression | generatorFunction | arrowFunction | classExpression
  | parenthesized | sequence | binary | unary | update | ternary
  | assignment | augmentedAssignment | await | yield
  | call | arguments | newExpression | member | subscript | optionalChain
  | importKeyword | metaProperty | decorator
  | asExpression | satisfiesExpression | nonNull | typeAssertion | instantiation
  -- markup
  | markupElement | markupClosing | markupAttribute
  | markupExpression | markupText | markupNamespaceName | characterReference
  -- patterns and parameters
  | objectPattern | arrayPattern | pairPattern | restPattern | assignmentPattern
  | objectAssignmentPattern | shorthandPattern
  | parameters | requiredParameter | optionalParameter | accessModifier | overrideModifier
  -- classes
  | classBody | classHeritage | extendsClause | implementsClause
  | fieldDefinition | methodSignature | abstractMethodSignature | staticBlock
  -- types
  | typeIdentifier | nestedTypeIdentifier | nestedIdentifier | genericType
  | typeArguments | typeParameters | typeParameter | constraint | defaultType
  | ascription | predefinedType | literalType | thisType | existentialType | maybeType
  | objectType | interfaceBody | extendsTypeClause
  | propertySignature | callSignature | constructSignature | indexSignature | mappedTypeClause
  | arrayType | lookupType | tupleType | optionalType | restType | readonlyType
  | unionType | intersectionType | conditionalType | inferType
  | functionType | constructorType | parenthesizedType | typeQuery | indexTypeQuery
  | templateLiteralType | templateType | typePredicate | asserts
  deriving DecidableEq, Repr, Inhabited

namespace Kind

/-- Whether nodes of this kind count among the named children of their parent. Keywords,
punctuation and implied terminators do not. -/
def isNamed : Kind → Bool
  | token | terminator => false
  | _ => true

/-- Whether a value can be assigned to what a node of this kind stands for. -/
def isTarget : Kind → Bool
  | identifier | undefinedLiteral | member | subscript | nonNull | parenthesized
  | objectPattern | arrayPattern => true
  | _ => false

/-- Whether members and calls may follow an expression of this kind at the level of operators,
because it ends in a type or in a member. -/
def takesMembers : Kind → Bool
  | asExpression | satisfiesExpression | nonNull | member | subscript | call | instantiation => true
  | _ => false

/-- Whether nodes of this kind may stand between any two tokens. -/
def isExtra : Kind → Bool
  | comment | error => true
  | _ => false

end Kind

end ThemeOverride.Script
