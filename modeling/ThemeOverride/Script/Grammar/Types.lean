import ThemeOverride.Script.Grammar.Rule

/-!
# The grammar of types

Patterns of type annotations, type arguments and parameters, and of the members of object types
and interfaces. Of the operators on types a function binds weakest, then a conditional, a union,
an intersection, and the brackets that follow a type.

## Main definitions

* `ThemeOverride.Script.Form.type` and its parts: types by the strength of their operators.
* `ThemeOverride.Script.Form.typeMember`: the members of an object type.
* `ThemeOverride.Script.Form.signature`: the head of a function.
-/

namespace ThemeOverride.Script.Form

/-- What a type may be continued by, where an implied terminator does not end it. -/
def typeStep (ending : Option Ending) (p : Form) : Form := .seq (goesOn ending) p

/-- A type: a union, or a choice between types by a condition. -/
def type (ending : Option Ending) : Form :=
  .grow (rule (.plainType ending)) <| typeStep ending <|
    .node .conditionalType <| all
      [word "extends", rule (.plainType none), mark "?", rule (.type none), mark ":",
       rule (.type ending)]

/-- A type without a condition: types between bars, of which the first may have one before it. -/
def plainType (ending : Option Ending) : Form :=
  .grow
    (.either (.node .unionType (.seq (mark "|") (rule (.intersection ending))))
      (rule (.intersection ending)))
    (typeStep ending <|
      .node .unionType (.seq (mark "|") (rule (.intersection ending))))

/-- Types between ampersands, of which the first may have one before it. -/
def intersection (ending : Option Ending) : Form :=
  .grow
    (.either (.node .intersectionType (.seq (mark "&") (rule (.postfixType ending))))
      (rule (.postfixType ending)))
    (typeStep ending <|
      .node .intersectionType (.seq (mark "&") (rule (.postfixType ending))))

/-- A type with the brackets that follow it. -/
def postfixType (ending : Option Ending) : Form :=
  .grow (rule (.primaryType ending)) <| typeStep ending <| firstOf
    [.node .arrayType (.seq (mark "[") (mark "]")),
     .node .lookupType (brackets (rule (.type none)))]

/-- A name with the names of the namespaces before it, up to the last full stop. -/
def namespacePath : Form :=
  .grow (name .identifier)
    (.node .nestedIdentifier (all [mark ".", name .propertyName, .ahead (mark ".")]))

/-- The name of a type, perhaps within namespaces. -/
def typePath : Form :=
  .either
    (.node .nestedTypeIdentifier
      (all [.token .comments .identifier (.nameExcept typeWords) |> .ahead, namespacePath, mark ".",
            typeName]))
    (.token .comments .typeIdentifier (.nameExcept typeWords))

/-- A type that is applied to arguments. -/
def genericType : Form :=
  .grow typePath (.after (· != .genericType) (.node .genericType (rule .typeArguments)))

/-- The type of a value, named by a path. -/
def typeQuery : Form :=
  .node .typeQuery <| .seq (word "typeof") <|
    .grow
      (firstOf
        [.node .call (.seq (named .importKeyword "import") (rule .arguments)),
         named .thisExpression "this", name .identifier])
      (firstOf
        [.node .member (.seq (.either (op ".") (op "?."))
          (.either (.token .comments .privateName .privateName) (name .propertyName))),
         .node .instantiation (rule .typeArguments),
         .node .call (rule .arguments)])

/-- A name that a test of types is about. -/
def testedName : Form := .either (named .thisExpression "this") (name .identifier)

/-- A test that a value has a type. -/
def typePredicate (ending : Option Ending) : Form :=
  .node .typePredicate (all [testedName, word "is", rule (.type ending)])

/-- A promise that a test holds after a call. -/
def assertsForm (ending : Option Ending) : Form :=
  .node .asserts (.seq (word "asserts") (.either (typePredicate ending)
    (.seq (.absent (word "is")) testedName)))

/-- What a function answers with. -/
def resultType (ending : Option Ending) : Form :=
  firstOf [assertsForm ending, typePredicate ending, rule (.type ending)]

/-- A type parameter with its bound and its default. -/
def typeParameter : Form :=
  .node .typeParameter <| all
    [optional (.seq (word "const") (.ahead (name .identifier))), .field .name typeName,
     optional (.node .constraint (.seq (.either (word "extends") (mark ":")) (rule (.type none)))),
     optional (.node .defaultType (.seq (mark "=") (rule (.type none))))]

/-- Type parameters in angle brackets. -/
def typeParameters : Form :=
  .node .typeParameters (all [mark "<", commaList1 typeParameter, mark ">"])

/-- Type arguments in angle brackets. -/
def typeArguments : Form :=
  .node .typeArguments (all [mark "<", commaList1 (rule (.type none)), mark ">"])

/-- The type of a function. -/
def functionType (ending : Option Ending) : Form :=
  .node .functionType <| all
    [optional (rule .typeParameters), rule .parameters, mark "=>", resultType ending]

/-- The type of a constructor. -/
def constructorType (ending : Option Ending) : Form :=
  .node .constructorType <| all
    [optional (word "abstract"), word "new", optional (rule .typeParameters), rule .parameters,
     mark "=>", rule (.type ending)]

/-- A member of a tuple type, which may have a name. -/
def tupleMember : Form :=
  firstOf
    [.node .optionalParameter (all [name .identifier, mark "?", ascription none]),
     .node .requiredParameter (.seq
       (.either (.node .restPattern (.seq (mark "...") (name .identifier))) (name .identifier))
       (ascription none)),
     .node .restType (.seq (mark "...") (rule (.type none))),
     .grow (rule (.type none)) (.node .optionalType (mark "?"))]

/-- A template of texts, as a type. -/
def templateLiteralType : Form :=
  .node .templateLiteralType <| all
    [mark "\x60",
     .many (firstOf
       [.token .nothing .stringFragment .templateFragment,
        .token .nothing .escape .escape,
        .node .templateType (all [.token .nothing .token (.mark "$\x7b"),
          rule (.type none), mark "\x7d"])]),
     .token .nothing .token (.mark "\x60")]

/-- A type that stands for itself: a keyword, a literal, a name, or a type in brackets. -/
def primaryType (ending : Option Ending) : Form :=
  firstOf
    [functionType ending, constructorType ending, word "const",
     .node .parenthesizedType (parens (rule (.type none))),
     rule (.objectType .objectType),
     .node .tupleType (brackets (commaList (rule .tupleMember))),
     .node .predefinedType (.seq (word "unique") (word "symbol")),
     .token .comments .predefinedType (.nameAmong
       ["any", "number", "boolean", "string", "symbol", "void", "unknown", "never", "object"]),
     .node .literalType (firstOf
       [.node .unary (.seq (ops ["-", "+"]) (.token .comments .number .number)),
        .token .comments .number .number, rule .string,
        named .trueLiteral "true", named .falseLiteral "false", named .nullLiteral "null",
        named .undefinedLiteral "undefined"]),
     named .thisType "this",
     typeQuery,
     .node .indexTypeQuery (.seq (word "keyof") (rule (.postfixType ending))),
     .node .readonlyType (.seq (word "readonly") (rule (.postfixType ending))),
     .node .inferType (all [word "infer", typeName,
       optional (.seq (word "extends") (rule (.plainType none)))]),
     templateLiteralType,
     .grow (.node .call (.seq (named .importKeyword "import") (rule .arguments)))
       (.node .member (.seq (mark ".") (name .propertyName))),
     .token .comments .existentialType (.mark "*"),
     .node .maybeType (.seq (mark "?") (rule (.postfixType ending))),
     genericType]

/-- A word that goes with the member named after it. -/
def modifierOf (kind : Kind) (ending : Option Ending) (words : List String) : Form :=
  all
    [.token .comments kind (.nameAmong words),
     goesOn ending,
     .ahead (firstOf [rule .propertyName, mark "*"])]

/-- A word that may go with the member named after it. -/
def modifier (ending : Option Ending) (w : String) : Form :=
  optional (modifierOf .token ending [w])

/-- Who may use the member named after it. -/
def accessModifier (ending : Option Ending) : Form :=
  modifierOf .accessModifier ending ["public", "private", "protected"]

/-- The words before the name of a method. -/
def methodModifiers (ending : Option Ending) : Form :=
  all
    [optional (accessModifier ending), modifier ending "static",
     optional (modifierOf .overrideModifier ending ["override"]),
     modifier ending "readonly", modifier ending "async",
     optional (firstOf
       [modifierOf .token ending ["get", "set"], mark "*"])]

/-- The head of a method. -/
def methodHead (ending headEnding : Option Ending) : Form :=
  all
    [methodModifiers ending, .field .name (rule .propertyName), optional (mark "?"),
     rule (.signature headEnding)]

/-- The head of a function: type parameters, parameters and what it answers with. -/
def signature (ending : Option Ending) : Form :=
  all
    [optional (rule .typeParameters), rule .parameters,
     optional (.node .ascription (.seq (mark ":") (resultType ending)))]

/-- The parameters of a function. -/
def parameters : Form := .node .parameters (parens (commaList (rule .parameter)))

/-- A word that may go with the parameter named after it. -/
def parameterModifier (kind : Kind) (words : List String) : Form :=
  optional (.seq (.token .comments kind (.nameAmong words)) (.ahead (rule .pattern)))

/-- A parameter with its words, its type and its default. -/
def parameter : Form :=
  let head := all
    [.many (rule .decorator), parameterModifier .accessModifier ["public", "private", "protected"],
     parameterModifier .overrideModifier ["override"], parameterModifier .token ["readonly"],
     .either (named .thisExpression "this") (rule .pattern)]
  let rest := .seq (annotated none) (optional (initializer .inside))
  .either (.node .optionalParameter (all [head, mark "?", rest]))
    (.node .requiredParameter (.seq head rest))

/-- The type of all members that an object has no name for. -/
def indexSignature (ending : Option Ending) : Form :=
  .node .indexSignature <| all
    [optional (.seq (optional (ops ["-", "+"])) (word "readonly")),
     brackets (.either
       (.node .mappedTypeClause (all [typeName, word "in", rule (.type none),
         optional (.seq (word "as") (rule (.type none)))]))
       (all [name .identifier, mark ":", rule (.type none)])),
     .node .ascription (.seq
       (firstOf [mark ":", mark "?:", mark "-?:", mark "+?:"]) (rule (.type ending)))]

/-- The head of a constructor in an object type. -/
def constructSignature : Form :=
  .node .constructSignature <| all
    [optional (word "abstract"), word "new", optional (rule .typeParameters), rule .parameters,
     annotated line]

/-- A member of an object type that holds a value. -/
def propertySignature : Form :=
  .node .propertySignature <| all
    [optional (accessModifier line), modifier line "static",
     optional (modifierOf .overrideModifier line ["override"]), modifier line "readonly",
     .field .name (rule .propertyName), optional (mark "?"), annotated line]

/-- A member of an object type. -/
def typeMember : Form :=
  firstOf
    [indexSignature line, constructSignature,
     .node .methodSignature (methodHead line line),
     .node .callSignature (rule (.signature line)),
     propertySignature]

/-- An object type: members with a comma or the end of a line between each two. -/
def objectType (kind : Kind) : Form :=
  let separator := .either (mark ",") (terminated false)
  .node kind <| all
    [.either (mark "\x7b|") (mark "\x7b"),
     optional (.either (mark ",") (mark ";")),
     optional (all
       [rule .typeMember, .many (.seq separator (rule .typeMember)), optional separator]),
     .either (mark "|\x7d") (mark "\x7d")]

end ThemeOverride.Script.Form
