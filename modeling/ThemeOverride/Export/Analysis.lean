import ThemeOverride.Export.Record
import ThemeOverride.Script.Assertion

/-!
# Analysis of exports

What a script exports and imports, read off its syntax tree. An export records the stretch of
text of its statement, so that other files can be put together from slices of that text.

## Main definitions

* `ThemeOverride.Analysis.valueKind`: what an expression is, through brackets and assertions.
* `ThemeOverride.Analysis.declaredNames`: the names that a declaration binds.
* `ThemeOverride.analyzeTree`, `ThemeOverride.analyzeExports`: the exports and imports of a script.
* `ThemeOverride.ExportMap.defaultCode?`: the text of the default export.
-/

namespace ThemeOverride

open Script

/-- The weight of a character in bytes. -/
def byteWeight (c : Char) : Nat := c.utf8Size

/-- The characters of a text between two places counted in bytes. -/
def byteSlice (s : List Char) (start stop : Nat) : List Char :=
  within (within s stop).1 start |>.2
where
  /-- Splits a text at a place counted in bytes. -/
  within : List Char → Nat → List Char × List Char
    | [], _ => ([], [])
    | c :: rest, n =>
      if n < byteWeight c then ([], c :: rest)
      else
        let (before, after) := within rest (n - byteWeight c)
        (c :: before, after)

namespace Analysis

/-- What a node is as a value; nothing for brackets and assertions, which stand for what is in
them. -/
def plainValueKind : Kind → ExportKind
  | .arrowFunction | .functionExpression | .generatorFunction => .function
  | .classExpression => .class
  | .object => .object
  | _ => .value

/-- Whether a node stands for a value in it. -/
def isWrapper (k : Kind) : Bool := k.isAssertion || k == .parenthesized

mutual

/-- What an expression is as a value, looking through brackets and assertions. -/
def valueKind : Tree → ExportKind
  | .leaf _ k _ _ => plainValueKind k
  | .node _ k cs =>
    if k == .typeAssertion then lastValueKind .value cs
    else if isWrapper k then firstValueKind cs
    else plainValueKind k

/-- What the first named one of some trees is as a value. -/
def firstValueKind : List Tree → ExportKind
  | [] => .value
  | t :: ts => if t.kind.isNamed then valueKind t else firstValueKind ts

/-- What the last named one of some trees is as a value, if there is one. -/
def lastValueKind (found : ExportKind) : List Tree → ExportKind
  | [] => found
  | t :: ts => lastValueKind (if t.kind.isNamed then valueKind t else found) ts

end

/-- What a declaration of a kind binds to its name. -/
def declarationKind? : Kind → Option ExportKind
  | .classDeclaration | .abstractClassDeclaration => some .class
  | .functionDeclaration | .generatorDeclaration | .functionSignature => some .function
  | .interfaceDeclaration => some .interface
  | .typeAliasDeclaration => some .type
  | .enumDeclaration => some .enum
  | _ => none

/-- The names in a pattern that takes a value apart. -/
def patternNames (pattern : Tree) : List String :=
  ((Placed.walk (fun _ => 0) ⟨0, pattern⟩).filter fun p =>
    p.tree.kind == .identifier || p.tree.kind == .shorthandPattern).map (·.tree.toText)

/-- The names that one variable of a declaration binds. -/
def declaratorNames (declarator : Tree) : List (String × ExportKind) :=
  match declarator.child? .name with
  | none => []
  | some name =>
    if name.kind == .identifier then
      [(name.toText, ((declarator.child? .value).map valueKind).getD .value)]
    else (patternNames name).map (·, .value)

/-- The names that a declaration binds, with what it binds to them. -/
def declaredNames (declaration : Tree) : List (String × ExportKind) :=
  match declarationKind? declaration.kind with
  | some kind =>
    match declaration.child? .name with
    | none => []
    | some name => [(name.toText, kind)]
  | none =>
    if declaration.kind == .lexicalDeclaration || declaration.kind == .variableDeclaration then
      (declaration.namedChildren.filter (·.kind == .variableDeclarator)).flatMap declaratorNames
    else []

/-- What the statements of a script bind to names, the last first. -/
def localKinds (statements : List Tree) : List (String × ExportKind) :=
  (statements.flatMap fun t =>
    if t.kind == .exportStatement then
      match t.child? .declaration with
      | none => []
      | some d => declaredNames d
    else declaredNames t).reverse

/-- A text without quotes at its ends. -/
def unquoted (s : List Char) : List Char :=
  let isQuote := fun c => c == '\x27' || c == '\x22'
  ((s.dropWhile isQuote).reverse.dropWhile isQuote).reverse

/-- What an export that lists a name exports under it, and of which kind; nothing for the
default export. -/
def specifierExport? (typeClause hasSource : Bool) (kinds : List (String × ExportKind))
    (specifier : Tree) : Option (String × ExportKind) :=
  let original := specifier.child? .name
  match (specifier.child? .alias).or original with
  | none => none
  | some exported =>
    let name := String.ofList (unquoted exported.text)
    if name == "default" then none
    else if typeClause || specifier.hasKeyword "type" then some (name, .type)
    else if hasSource then some (name, .reference)
    else some (name, ((original.bind fun n => kinds.lookup n.toText).getD .reference))

/-- The names that an export statement lists. -/
def listedNames (kinds : List (String × ExportKind)) (statement : Tree) :
    List (String × ExportKind) :=
  match statement.namedChildren.find? (·.kind == .exportClause) with
  | none => []
  | some clause =>
    (clause.namedChildren.filter (·.kind == .exportSpecifier)).filterMap
      (specifierExport? (statement.hasKeyword "type") (statement.child? .source).isSome kinds)

/-- The bindings that a part of an import introduces. -/
def bindings (part : Tree) : List ImportClause :=
  match part.kind with
  | .identifier => [⟨part.toText, part.toText, false⟩]
  | .namespaceImport =>
    (part.namedChildren.filter (·.kind == .identifier)).map fun n => ⟨n.toText, part.toText, false⟩
  | .namedImports =>
    (part.namedChildren.filter (·.kind == .importSpecifier)).filterMap fun specifier =>
      ((specifier.child? .alias).or (specifier.child? .name)).map fun bound =>
        ⟨bound.toText, specifier.toText, true⟩
  | _ => []

/-- The import of a statement; nothing where the module's name is missing or empty. -/
def importRecord? (statement : Placed) : Option ImportRecord := do
  let source ← statement.child? byteWeight .source
  let fragment ← (source.namedChildren byteWeight).find? (·.tree.kind == .stringFragment)
  let clauses := (statement.tree.namedChildren.filter (·.kind == .importClause)).flatMap
    fun clause => clause.namedChildren.flatMap bindings
  some
    { span := statement.span byteWeight
      source := fragment.tree.toText
      sourceSpan := fragment.span byteWeight
      typeOnly := statement.tree.hasKeyword "type"
      clauses := clauses }

/-- The record of a default export. -/
def defaultRecord (statement : Placed) : ExportRecord :=
  { name := "default"
    span := statement.span byteWeight
    kind :=
      match statement.tree.child? .declaration with
      | some d => ((declaredNames d).head?.map (·.2)).getD .value
      | none => ((statement.tree.child? .value).map valueKind).getD .value
    isDefault := true
    references := references statement.tree }

/-- Whether a statement is the default export. -/
def isDefaultExport (t : Tree) : Bool := t.kind == .exportStatement && t.hasKeyword "default"

/-- The records of the named exports of a statement. -/
def namedRecords (kinds : List (String × ExportKind)) (statement : Placed) : List ExportRecord :=
  if statement.tree.kind != .exportStatement || isDefaultExport statement.tree then []
  else
    let names :=
      match statement.tree.child? .declaration with
      | some d => declaredNames d
      | none => listedNames kinds statement.tree
    names.map fun (name, kind) =>
      { name := name, span := statement.span byteWeight, kind := kind }

/-- The first record of each name. -/
def firstOfEachName (seen : List String) : List ExportRecord → List ExportRecord
  | [] => []
  | r :: rest =>
    if seen.contains r.name then firstOfEachName seen rest
    else r :: firstOfEachName (r.name :: seen) rest

end Analysis

open Analysis in
/-- The exports and imports of a script with the given syntax tree. Without types, what exists
for types alone is left out before the first record of each name is taken. -/
def analyzeTree (root : Tree) (includeTypes : Bool) : ExportMap :=
  let statements := (Placed.mk 0 root).namedChildren byteWeight
  let kinds := localKinds (statements.map (·.tree))
  let named := (statements.flatMap (namedRecords kinds)).filter fun r =>
    includeTypes || !r.kind.isTypeOnly
  { defaultExport := ((statements.filter (isDefaultExport ·.tree)).getLast?).map defaultRecord
    named := firstOfEachName [] named
    imports := (statements.filter (·.tree.kind == .importStatement)).filterMap importRecord? }

/-- The exports and imports of a script. -/
def analyzeExports (source fileName : String) (includeTypes : Bool) : ExportMap :=
  analyzeTree (parse (Dialect.ofFileName fileName) source.toList) includeTypes

/-- The text of the default export statement. -/
def ExportMap.defaultCode? (m : ExportMap) (source : String) : Option String :=
  m.defaultExport.map fun r => String.ofList (byteSlice source.toList r.span.1 r.span.2)

end ThemeOverride
