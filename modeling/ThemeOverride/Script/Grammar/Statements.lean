import ThemeOverride.Script.Grammar.Markup

/-!
# The grammar of statements

Patterns of statements and declarations, of imports and exports, and of whole scripts.

## Main definitions

* `ThemeOverride.Script.Form.statement`: a statement.
* `ThemeOverride.Script.Form.declaration`: a declaration.
* `ThemeOverride.Script.Form.exportStatement`, `importStatement`: exports and imports.
* `ThemeOverride.Script.Form.program`: a whole script.
-/

namespace ThemeOverride.Script.Form

open Rule (Scope)

/-! ## The end of a statement -/

/-- The end of a statement: a semicolon, written or implied, perhaps after comments. -/
def terminator (place : Ending) : Form :=
  firstOf
    [.token .nothing .terminator (.implied place), .token .blanks .token (.mark ";"),
     .seq (.token .blanks .comment .comment) (rule (.terminator place))]

/-- An implied terminator after a block, perhaps after comments. -/
def blockEnd (operand : Bool) : Form :=
  .either
    (.token .nothing .terminator (.implied ⟨operand, false⟩))
    (.seq (.token .blanks .comment .comment) (rule (.blockEnd operand)))

/-- Statements in braces. An implied terminator after them belongs to the block. -/
def block (operand : Bool) : Form :=
  .node .block (.seq (braces (.many (rule .statement))) (optional (rule (.blockEnd operand))))

/-- A word that begins a statement, unless a terminator is implied after it, which makes it a
name. -/
def leadingWord (w : String) : Form := .seq (word w) (goesOn (some ⟨true, false⟩))

/-! ## Declarations -/

/-- A variable with its type and its value. -/
def declarator : Form :=
  let target := .field .name (.either (rule .destructuring) (name .identifier))
  .node .variableDeclarator <| .either
    (all [.field .name (name .identifier), op "!", ascription line])
    (all [target, annotated line, optional (initializer .statement)])

/-- Variables with commas between them, and the end of their declaration. -/
def declarationList : Form :=
  .seq (sepBy1 (mark ",") (rule .declarator)) (terminated false)

/-- A declaration of constants or variables of a block. -/
def lexicalDeclaration : Form :=
  .node .lexicalDeclaration (.seq
    (.either (leadingWord "let") (.seq (word "const") (.absent (word "enum"))))
    (rule .declarationList))

/-- A declaration of variables. -/
def variableDeclaration : Form :=
  .node .variableDeclaration (.seq (word "var") (rule .declarationList))

/-- A declaration of a function, with its body. -/
def functionDeclaration : Form :=
  let start := .seq (optional (leadingWord "async")) (word "function")
  let rest := .seq (.field .name (name .identifier)) <|
    .seq (rule (.signature line)) (rule (.block false))
  .either (.node .generatorDeclaration (all [start, mark "*", rest]))
    (.node .functionDeclaration (.seq start rest))

/-- The head of a function alone. -/
def functionSignature : Form :=
  .node .functionSignature <| all
    [optional (leadingWord "async"), word "function", .field .name (name .identifier),
     rule (.signature line), rule (.terminator ⟨false, true⟩)]

/-- A declaration of a class. -/
def classDeclaration : Form :=
  .either
    (.node .classDeclaration (all
      [.many (rule .decorator), word "class", className, rule (.classRest true)]))
    (.node .abstractClassDeclaration (all
      [.many (rule .decorator), word "abstract", word "class", className,
       rule (.classRest false)]))

/-- The name of a module and what it holds. -/
def moduleRest : Form :=
  .seq (.field .name (rule .moduleName)) (optional (rule (.block false)))

/-- The name of a module: a string or a path. -/
def moduleName : Form :=
  .either (rule .string)
    (.grow (name .identifier) (.node .nestedIdentifier (.seq (mark ".") (name .propertyName))))

/-- A declaration of an interface. -/
def interfaceDeclaration : Form :=
  .node .interfaceDeclaration <| all
    [word "interface", .field .name typeName, optional (rule .typeParameters),
     optional (.node .extendsTypeClause
       (.seq (word "extends") (sepBy1 (mark ",") genericType))),
     rule (.objectType .interfaceBody)]

/-- A declaration of a name for a type. -/
def typeAliasDeclaration : Form :=
  .node .typeAliasDeclaration <| all
    [leadingWord "type", .field .name typeName, optional (rule .typeParameters), mark "=",
     .field .value (rule (.type line)), terminated false]

/-- A declaration of an enumeration. -/
def enumDeclaration : Form :=
  .node .enumDeclaration <| all
    [optional (word "const"), word "enum", .field .name (name .identifier),
     .node .enumBody (braces (commaList (.either
       (.node .enumAssignment (.seq (.field .name (rule .propertyName)) (initializer .inside)))
       (.field .name (rule .propertyName)))))]

/-- A name for a member of a namespace. -/
def importAlias : Form :=
  .node .importAlias <| all
    [word "import", name .identifier, mark "=", rule .moduleName, terminated false]

/-- A declaration without a value, of what exists elsewhere. -/
def ambientDeclaration : Form :=
  .node .ambientDeclaration <| .seq (leadingWord "declare") <| firstOf
    [rule .declaration,
     .seq (word "global") (rule (.block false)),
     all [word "module", mark ".", name .propertyName, mark ":", rule (.type line),
       terminated false]]

/-- A declaration. -/
def declaration : Form :=
  firstOf
    [functionDeclaration, functionSignature, classDeclaration, lexicalDeclaration,
     variableDeclaration,
     .node .moduleDeclaration (.seq (leadingWord "module") moduleRest),
     .node .namespaceDeclaration (.seq (leadingWord "namespace") moduleRest),
     typeAliasDeclaration, enumDeclaration, interfaceDeclaration, importAlias,
     ambientDeclaration]

/-! ## Imports and exports -/

/-- The name under which a module exports something. -/
def exportedName : Form := .either (rule .string) (name .identifier)

/-- The module that something comes from. -/
def fromClause : Form := .seq (word "from") (.field .source (rule .string))

/-- A name with another name for it, perhaps for types alone. -/
def specifier (kind : Kind) (original renamed : Form) : Form :=
  let named := .seq (.field .name original)
    (optional (.seq (word "as") (.field .alias renamed)))
  let last := .ahead (.either (mark ",") (mark "\x7d"))
  .node kind <| .either
    (all [.either (word "type") (word "typeof"), named, last]) (.seq named last)

/-- The names that an export lists. -/
def exportClause : Form :=
  .node .exportClause (braces (commaList (specifier .exportSpecifier exportedName exportedName)))

/-- An export of declarations, of a default, or of names. -/
def exportStatement : Form :=
  let start := leadingWord "export"
  let names := .seq exportClause (optional fromClause)
  .node .exportStatement <| firstOf
    [all [.many (rule .decorator), start, word "default", .either
       (.field .declaration (rule .declaration))
       (.seq (.field .value (rule (.expression .statement))) (terminated true))],
     all [.many (rule .decorator), start, .field .declaration (rule .declaration)],
     all [start, firstOf
       [.seq (mark "*") fromClause,
        .seq (.node .namespaceExport (all [mark "*", word "as", exportedName])) fromClause,
        names, .seq (word "type") names],
       terminated false],
     all [start, word "import", importAlias],
     all [start, mark "=", rule (.expression .statement), terminated true],
     all [start, word "as", word "namespace", name .identifier, terminated false]]

/-- The names that an import lists. -/
def namedImports : Form :=
  .node .namedImports (braces (commaList
    (specifier .importSpecifier exportedName (name .identifier))))

/-- What an import binds. -/
def importClause : Form :=
  let named := .either
    (.node .namespaceImport (all [mark "*", word "as", name .identifier])) namedImports
  .node .importClause <| .either named
    (.seq (name .identifier) (optional (.seq (mark ",") named)))

/-- An import. -/
def importStatement : Form :=
  let what := firstOf
    [.seq importClause fromClause,
     .node .importRequire (all [name .identifier, mark "=", word "require",
       parens (.field .source (rule .string))]),
     .field .source (rule .string)]
  let rest := .seq
    (optional (.node .importAttribute (all
      [goesOn line, .either (word "with") (word "assert"),
       .node .object (braces (commaHoles (rule .objectMember)))])))
    (terminated false)
  .node .importStatement <| .seq (word "import") <| .either
    (all [.either (word "type") (word "typeof"), what, rest]) (.seq what rest)

/-! ## Statements -/

/-- The words that begin statements, or end parts of them, and can be no names there. -/
def statementWords : List String :=
  ["if", "else", "for", "while", "do", "switch", "case", "default", "try", "catch", "finally",
   "with", "return", "throw", "break", "continue", "debugger", "var", "const", "enum",
   "interface", "abstract"]

/-- Fits where a statement could be an expression. -/
def beginsExpression : Form :=
  .seq (.absent (.token .comments .token (.nameAmong statementWords))) <|
    .absent <| .either
      (all [optional (leadingWord "async"), word "function", optional (mark "*"),
        name .identifier])
      (.seq (word "class") className)

/-- A condition in round brackets. -/
def condition : Form := .node .parenthesized (parens (rule (.expressions .inside)))

/-- A loop with a start, a condition and a step. -/
def forStatement : Form :=
  let empty := .node .emptyStatement (mark ";")
  .node .forStatement <| all
    [word "for",
     parens (all
       [firstOf [lexicalDeclaration, variableDeclaration, empty,
          .seq (rule (.expressions .inside)) (mark ";")],
        .either empty (.seq (rule (.expressions .inside)) (mark ";")),
        optional (rule (.expressions .inside))]),
     rule .statement]

/-- A loop over members or values. -/
def forInStatement : Form :=
  let bound := .either (rule .destructuring) (name .identifier)
  .node .forInStatement <| all
    [word "for", optional (word "await"),
     parens (all
       [firstOf
          [all [word "var", bound, optional (initializer .inside),
             .ahead (.either (word "in") (word "of"))],
           all [.either (word "let") (word "const"), bound,
             .ahead (.either (word "in") (word "of"))],
           .either (rule .destructuring) (rule .target)],
        .either (word "in") (word "of"), rule (.expressions .inside)]),
     rule .statement]

/-- A choice between cases. -/
def switchStatement : Form :=
  .node .switchStatement <| all
    [word "switch", condition,
     .node .switchBody (braces (.many (.either
       (.node .switchCase (all [word "case", rule (.expressions .inside), mark ":",
         .many (rule .statement)]))
       (.node .switchDefault (all [word "default", mark ":", .many (rule .statement)])))))]

/-- A block with what is done when it fails and at its end. -/
def tryStatement : Form :=
  let bound := .either (rule .destructuring) (name .identifier)
  .node .tryStatement <| all
    [word "try", rule (.block false),
     optional (.node .catchClause (all
       [word "catch", optional (parens (.seq bound (annotated none))), rule (.block false)])),
     optional (.node .finallyClause (.seq (word "finally") (rule (.block false))))]

/-- A jump out of a statement or to its next round. -/
def jump (kind : Kind) (w : String) : Form :=
  .node kind <| all
    [word w, optional (.seq (goesOn line) (name .label)), terminated false]

/-- A statement. -/
def statement : Form :=
  firstOf
    [exportStatement, importStatement, rule .declaration, rule (.block false),
     .node .ifStatement (all [word "if", condition, rule .statement,
       optional (.node .elseClause (.seq (word "else") (rule .statement)))]),
     switchStatement, forInStatement, forStatement,
     .node .whileStatement (all [word "while", condition, rule .statement]),
     .node .doStatement (all [word "do", rule .statement, word "while", condition,
       optional (terminated false)]),
     tryStatement,
     .node .withStatement (all [word "with", condition, rule .statement]),
     jump .breakStatement "break", jump .continueStatement "continue",
     .node .debuggerStatement (.seq (word "debugger") (terminated false)),
     .node .returnStatement (.seq (word "return") (.either
       (all [goesOn line, rule (.expressions .statement), terminated true])
       (terminated false))),
     .node .throwStatement
       (all [word "throw", rule (.expressions .statement), terminated true]),
     .node .emptyStatement (mark ";"),
     .seq beginsExpression <| .either
       (.node .labeledStatement (all [name .label, mark ":", rule .statement]))
       (.node .expressionStatement
         (.seq (rule (.expressions .statement)) (terminated true)))]

/-- A whole script: a line for the system, statements, and the end of the text. -/
def program : Form :=
  all
    [optional (.token .blanks .hashBang .hashBang), .many (rule .statement),
     .token .comments .terminator .finish]

end ThemeOverride.Script.Form
