import ThemeOverride.Script.Grammar.Types

/-!
# The grammar of expressions

Patterns of expressions, from the names and literals they are made of to the operators between
them, and of the functions, classes and patterns that occur in them. Both dialects share these
rules; the dialect decides whether angle brackets begin markup or a type assertion.

## Main definitions

* `ThemeOverride.Script.Form.expression`, `operand`, `unary`, `chain`, `primary`: expressions by
  the strength of their operators.
* `ThemeOverride.Script.Form.arrow`, `functionExpression`, `classExpression`: functions and classes.
* `ThemeOverride.Script.Form.pattern`, `destructuring`: what values are taken apart into.
-/

namespace ThemeOverride.Script.Form

open Rule (Scope)

/-- What an expression may be continued by, where an implied terminator does not end it. -/
def expressionStep (scope : Scope) (p : Form) : Form :=
  .seq (goesOn scope.ending) p

/-! ## Literals -/

/-- A string in the given quotes. -/
def quoted (quote : Char) : Form :=
  .node .string <| all
    [.token .comments .token (.mark (String.singleton quote)),
     .many (.either (.token .nothing .stringFragment (.stringFragment quote))
       (.token .nothing .escape .escape)),
     .token .nothing .token (.mark (String.singleton quote))]

/-- A string. -/
def string : Form := .either (quoted '\x27') (quoted '\x22')

/-- A template string with the expressions in it. -/
def template : Form :=
  .node .templateString <| all
    [mark "\x60",
     .many (firstOf
       [.token .nothing .stringFragment .templateFragment,
        .token .nothing .escape .escape,
        .node .templateSubstitution (all [.token .nothing .token (.mark "$\x7b"),
          rule (.expressions .inside), mark "\x7d"])]),
     .token .nothing .token (.mark "\x60")]

/-- A regular expression. -/
def regex : Form :=
  .node .regex <| all
    [mark "/", .token .nothing .regexPattern .regexPattern,
     .token .nothing .token (.mark "/"),
     optional (.token .nothing .regexFlags .regexFlags)]

/-- The name of a member: a word, a private name, a literal, or a computed name. -/
def propertyName : Form :=
  firstOf
    [name .propertyName, .token .comments .privateName .privateName, rule .string,
     .token .comments .number .number,
     .node .computedName (brackets (rule (.expression .inside)))]

/-! ## Patterns -/

/-- The members of what may stand on the left of an assignment. -/
def targetStep : Form :=
  firstOf
    [.node .member (.seq (op ".")
      (.either (.token .comments .privateName .privateName) (name .propertyName))),
     .node .subscript (brackets (rule (.expressions .inside))),
     .node .nonNull (op "!")]

/-- A variable or a member of one, as a target of an assignment. -/
def target : Form :=
  .only Kind.isTarget <|
    .grow (firstOf [variableName, named .undefinedLiteral "undefined",
      named .thisExpression "this", named .superExpression "super"]) targetStep

/-- A pattern that takes the rest of the values. -/
def restPattern : Form :=
  .node .restPattern (.seq (mark "...") (.either (rule .destructuring) (rule .target)))

/-- A pattern of values: a target, or a pattern that takes a value apart. -/
def pattern : Form := firstOf [restPattern, rule .destructuring, rule .target]

/-- A pattern with the value it has by default. -/
def patternWithDefault : Form :=
  .grow (rule .pattern)
    (.node .assignmentPattern (.seq (op "=") (rule (.expression .inside))))

/-- A pattern that takes an object or an array apart. -/
def destructuring : Form :=
  .either
    (.node .arrayPattern (brackets (commaHoles patternWithDefault)))
    (.node .objectPattern (braces (commaHoles (firstOf
      [.node .pairPattern (all [rule .propertyName, mark ":", patternWithDefault]),
       restPattern,
       .grow (.either (rule .destructuring) (name .shorthandPattern))
         (.node .objectAssignmentPattern (.seq (op "=") (rule (.expression .inside))))]))))

/-! ## Functions -/

/-- The parameters and the body of an arrow function. -/
def arrow (scope : Scope) : Form :=
  let head := .either variableName <| all
    [optional (rule .typeParameters), rule .parameters,
     if scope.arrowTypes then
       optional (.node .ascription (.seq (mark ":") (resultType none)))
     else .empty]
  let body := .either (rule (.block true)) (rule (.expression scope))
  .node .arrowFunction <| .either
    (all [word "async", goesOn scope.ending, head, mark "=>", body])
    (all [head, mark "=>", body])

/-- A function as a value. -/
def functionExpression (scope : Scope) : Form :=
  let start := .seq
    (optional (.seq (word "async") (goesOn scope.ending))) (word "function")
  let rest := .seq (optional (.field .name (name .identifier))) (rule (.functionRest true))
  .either (.node .generatorFunction (all [start, mark "*", rest]))
    (.node .functionExpression (.seq start rest))

/-- The head and the body of a function after its name. -/
def functionRest (operand : Bool) : Form :=
  .seq (rule (.signature none)) (rule (.block operand))

/-! ## Classes -/

/-- A decorator of a class or one of its members. -/
def decorator : Form :=
  let path := .grow (name .identifier)
    (.node .member (.seq (mark ".") (name .propertyName)))
  let call := .grow path
    (.node .call (.seq (optional (rule .typeArguments)) (rule .arguments)))
  .node .decorator (.seq (mark "@") (.either (.node .parenthesized (parens call)) call))

/-- The name that a declaration gives to a class. -/
def className : Form :=
  .field .name (.token .comments .typeIdentifier (.nameExcept ["extends", "implements"]))

/-- What a class extends and implements. -/
def classHeritage : Form :=
  let implemented := .node .implementsClause
    (.seq (word "implements") (sepBy1 (mark ",") (rule (.type none))))
  let extended := .node .extendsClause <| .seq (word "extends") <| sepBy1 (mark ",") <|
    .seq (rule (.chain .inside)) (optional (rule .typeArguments))
  .node .classHeritage (.either (.seq extended (optional implemented)) implemented)

/-- A class after its name. -/
def classRest (declared : Bool) : Form :=
  all
    [optional (rule .typeParameters), optional classHeritage,
     .node .classBody (braces (.many (rule .classMember))),
     if declared then optional (rule (.blockEnd false)) else .empty]

/-- A class as a value. -/
def classExpression : Form :=
  .node .classExpression <| all
    [.many (rule .decorator), word "class", optional className, rule (.classRest false)]

/-- The words before the name of a field. -/
def fieldModifiers : Form :=
  let access := accessModifier line
  let declare := modifierOf .token line ["declare"]
  all
    [optional (firstOf
      [.seq declare (optional access), .seq access (optional declare)]),
     firstOf
       [modifierOf .token line ["accessor"],
        .seq (modifierOf .token line ["abstract"]) (modifier line "readonly"),
        all [modifier line "static", optional (modifierOf .overrideModifier line ["override"]),
          modifier line "readonly", modifier line "abstract"]]]

/-- The name and the type of a field. -/
def fieldHead : Form :=
  all
    [.many (rule .decorator), fieldModifiers, .field .name (rule .propertyName),
     optional (.either (mark "?") (op "!")), annotated line]

/-- A field of a class. -/
def propertyDefinition : Form :=
  .either
    (.seq (.node .fieldDefinition (.seq fieldHead (initializer .statement)))
      (.either (terminated true) (mark ",")))
    (.seq (.node .fieldDefinition fieldHead) (.either (terminated false) (mark ",")))

/-- A member of a class. -/
def classMember : Form :=
  firstOf
    [mark ";",
     .node .staticBlock (all [word "static", .ahead (mark "\x7b"), rule (.block false)]),
     .seq (.many (rule .decorator))
       (.node .method (.seq (methodHead line none) (rule (.block false)))),
     .seq (.node .methodSignature (methodHead line line))
       (.either (rule (.terminator ⟨false, true⟩)) (mark ",")),
     .seq
       (.node .abstractMethodSignature (all
         [optional (accessModifier line), modifierOf .token line ["abstract"],
          optional (modifierOf .overrideModifier line ["override"]),
          optional (firstOf [modifierOf .token line ["get", "set"], mark "*"]),
          .field .name (rule .propertyName), optional (mark "?"), rule (.signature line)]))
       (.either (terminated false) (mark ",")),
     .seq (indexSignature line) (.either (terminated false) (mark ",")),
     rule .propertyDefinition]

/-! ## Operands -/

/-- A member of an object. -/
def objectMember : Form :=
  firstOf
    [.node .spread (.seq (mark "...") (rule (.expression .inside))),
     .node .method (.seq (methodHead none none) (rule (.block false))),
     .node .pair (all
       [rule .propertyName, mark ":", .field .value (rule (.expression .inside))]),
     .seq (name .shorthandProperty) (.ahead (.either (mark ",") (mark "\x7d")))]

/-- The arguments of a call. -/
def arguments : Form :=
  .node .arguments (parens (commaHoles (.either
    (.node .spread (.seq (mark "...") (rule (.expression .inside))))
    (rule (.expression .inside)))))

/-- An expression in round brackets, perhaps with its type. -/
def parenthesized : Form :=
  .node .parenthesized (parens
    (.seq (rule (.expressions .inside)) (annotated none)))

/-- An array. -/
def array : Form :=
  .node .array (brackets (commaHoles (.either
    (.node .spread (.seq (mark "...") (rule (.expression .inside))))
    (rule (.expression .inside)))))

/-- What a new object is made from: an operand with its members, but without calls. -/
def callee (scope : Scope) : Form :=
  .grow (rule (.primary scope)) <| expressionStep scope <| firstOf
    [.node .member (.seq (.either (op ".") (op "?."))
      (.either (.token .comments .privateName .privateName) (name .propertyName))),
     .node .subscript (brackets (rule (.expressions .inside))),
     .node .nonNull (op "!"),
     .node .call (rule .template)]

/-- A new object. -/
def newExpression (scope : Scope) : Form :=
  .either
    (.node .metaProperty (all [word "new", mark ".", word "target"]))
    (.node .newExpression (all
      [word "new", rule (.callee scope),
       optional (.seq (rule .typeArguments)
         (.either (.ahead (mark "(")) (.guard (.endsOperand scope.terminable)))),
       optional (.seq (goesOn scope.ending) (rule .arguments))]))

/-- An operand without the members and calls that may follow it. -/
def primary (dialect : Dialect) (scope : Scope) : Form :=
  firstOf
    [rule (.arrow scope),
     .token .comments .number .number, rule .string, rule .template, regex,
     named .thisExpression "this", named .superExpression "super",
     named .trueLiteral "true", named .falseLiteral "false", named .nullLiteral "null",
     named .undefinedLiteral "undefined",
     parenthesized,
     .seq (rule .destructuring) (.ahead (op "=")),
     array,
     .node .object (braces (commaHoles (rule .objectMember))),
     functionExpression scope, classExpression, newExpression scope,
     .node .metaProperty (all [word "import", mark ".", word "meta"]),
     .seq (named .importKeyword "import") (.ahead (.either (mark "(") (mark "."))),
     match dialect with
     | .markup => rule .element
     | .typed => never,
     .node .assignment (all
       [word "using", goesOn scope.ending, rule .target, op "=",
        rule (.expression scope)]),
     variableName]

/-- The operators that change a variable by a value. -/
def changeOperators : List String :=
  ["+=", "-=", "*=", "/=", "%=", "^=", "&=", "|=", ">>=", ">>>=", "<<=", "**=", "&&=", "||=", "??="]

/-- The members, calls and changes that may follow an operand. -/
def memberSteps (scope : Scope) : Form :=
  let memberName := .either (.token .comments .privateName .privateName) (name .propertyName)
  let optionalChain := .token .comments .optionalChain (.operator "?.")
  firstOf
    [.node .member (.seq (op ".") memberName),
     .seq (.ahead (op "?.")) (firstOf
       [.node .member (all [optionalChain, memberName]),
        .node .subscript (all [optionalChain, brackets (rule (.expressions .inside))]),
        .node .call (all [optionalChain, optional (rule .typeArguments), rule .arguments])]),
     .node .subscript (brackets (rule (.expressions .inside))),
     .node .call (rule .arguments),
     .node .call (.seq (rule .typeArguments) (rule .arguments)),
     .node .instantiation (.seq (rule .typeArguments) (.guard (.endsOperand scope.terminable))),
     .node .nonNull (op "!"),
     .node .update (ops ["++", "--"])]

/-- An operand with the members, calls and assignments that follow it. -/
def chain (scope : Scope) : Form :=
  .grow (rule (.primary scope)) <| expressionStep scope <| firstOf
    [memberSteps scope,
     .after (fun k => k != .instantiation && k != .update) (.node .call (rule .template)),
     .after Kind.isTarget (.node .assignment (.seq (op "=") (rule (.expression scope)))),
     .after Kind.isTarget
       (.node .augmentedAssignment (.seq (ops changeOperators) (rule (.expression scope))))]

/-! ## Operators -/

/-- An operand with the operators before it. -/
def unary (dialect : Dialect) (scope : Scope) : Form :=
  firstOf
    [.node .unary (.seq (firstOf
      [ops ["!", "~", "-", "+"], word "typeof", word "void", word "delete"])
      (rule (.unary scope))),
     .node .update (.seq (ops ["++", "--"]) (rule (.unary scope))),
     .node .await (.seq (word "await") (rule (.unary scope))),
     .node .yield (.seq (word "yield") (.either
       (.seq (mark "*") (rule (.expression scope)))
       (optional (.seq (goesOn scope.ending) (rule (.expression scope)))))),
     rule (.chain scope),
     .seq (.token .comments .privateName .privateName) (.ahead (word "in")),
     match dialect with
     | .typed => .node .typeAssertion (.seq (rule .typeArguments) (rule (.unary scope)))
     | .markup => never]

/-- The operators between two operands, the weakest first. -/
def binaryOperators : List (Nat × List String × List String) :=
  [(1, ["??"], []), (2, ["||"], []), (3, ["&&"], []), (4, ["|"], []), (5, ["^"], []),
   (6, ["&"], []), (7, ["==", "!=", "===", "!=="], []),
   (8, ["<", "<=", ">", ">="], ["in", "instanceof"]),
   (9, ["<<", ">>", ">>>"], []), (10, ["+", "-"], []), (11, ["*", "/", "%"], [])]

/-- The operators at least as strong as a level, each with its right operand. -/
def binarySteps (level : Nat) (scope : Scope) : Form :=
  .either
    (firstOf ((binaryOperators.filter fun o => decide (level ≤ o.1)).map fun (l, marks, words) =>
      .node .binary (.seq (firstOf (ops marks :: words.map word)) (rule (.operand (l + 1) scope)))))
    (.node .binary (.seq (op "**") (rule (.operand 12 scope))))

/-- A choice between two values by a condition. The first value may hold an arrow function that
states its result type only if the mark of the second follows. -/
def conditional (scope : Scope) : Form :=
  .node .ternary <| all
    [.seq (op "?") (.guard .beginsValue),
     .either (.seq (rule (.expression .inside)) (mark ":"))
       (.seq (rule (.expression ⟨false, false⟩)) (mark ":")),
     rule (.expression scope)]

/-- An expression: operands with operators between them, conditions, and assertions of types. -/
def expression (scope : Scope) : Form :=
  .grow (rule (.unary scope)) <| expressionStep scope <| firstOf
    [conditional scope,
     .node .asExpression (.seq (word "as") (.either (word "const") (rule (.type scope.ending)))),
     .node .satisfiesExpression (.seq (word "satisfies") (rule (.type scope.ending))),
     .after Kind.takesMembers (memberSteps scope),
     binarySteps 0 scope]

/-- An operand of an operator of the given level. -/
def operand (level : Nat) (scope : Scope) : Form :=
  .grow (rule (.unary scope)) (expressionStep scope (binarySteps level scope))

/-- Expressions with commas between them. -/
def expressions (scope : Scope) : Form :=
  .grow (rule (.expression scope))
    (.node .sequence (.seq (mark ",") (rule (.expression scope))))

end ThemeOverride.Script.Form
