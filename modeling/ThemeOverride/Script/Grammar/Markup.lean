import ThemeOverride.Script.Grammar.Expressions

/-!
# The grammar of markup

Patterns of markup elements: a tag with attributes, and between an opening and a closing tag
text, further elements and expressions in braces.

## Main definitions

* `ThemeOverride.Script.Form.element`: an element or a fragment.
* `ThemeOverride.Script.Form.markupAttribute`, `markupChild`: its parts.
-/

namespace ThemeOverride.Script.Form

/-- A name in markup. -/
def markupWord (kind : Kind) : Form := .token .comments kind .markupName

/-- The name of an element: a name, a path, or a name within a namespace. -/
def markupName : Form :=
  .either
    (.node .markupNamespaceName
      (all [markupWord .identifier, mark ":", markupWord .identifier]))
    (.grow (markupWord .identifier) (.node .member (.seq (mark ".") (name .propertyName))))

/-- An expression in braces, which may be missing. -/
def markupContainer : Form :=
  .node .markupExpression (braces (optional (.either
    (.node .spread (.seq (mark "...") (rule (.expression .inside))))
    (rule (.expressions .inside)))))

/-- A value of an attribute in the given quotes. -/
def attributeText (quote : Char) : Form :=
  .node .string <| all
    [.token .comments .token (.mark (String.singleton quote)),
     .many (.either
       (.token .nothing .stringFragment (.attributeFragment quote))
       (.token .nothing .characterReference .characterReference)),
     .token .nothing .token (.mark (String.singleton quote))]

/-- An attribute of an element, or an expression in braces in its place. -/
def markupAttribute : Form :=
  .either (rule .markupContainer) <|
    .node .markupAttribute <| .seq
      (.either
        (.node .markupNamespaceName
          (all [markupWord .identifier, mark ":", markupWord .identifier]))
        (markupWord .propertyName))
      (optional (.seq (mark "=") (firstOf
        [attributeText '\x27', attributeText '\x22', rule .markupContainer, rule .element])))

/-- What may stand between an opening and a closing tag. -/
def markupChild : Form :=
  firstOf
    [.token .nothing .markupText .markupText,
     .token .blanks .characterReference .characterReference,
     rule .element, rule .markupContainer]

/-- The name and the attributes in a tag. -/
def tagParts : Form :=
  all [rule .markupName, optional (rule .typeArguments), .many (rule .markupAttribute)]

/-- An element that closes itself or has a closing tag, or a fragment without a name. -/
def element : Form :=
  let closing := .node .markupClosing
    (all [mark "</", optional (rule .markupName), mark ">"])
  let content := .seq (.many (rule .markupChild)) closing
  .node .markupElement <| all
    [.absent (mark "</"), mark "<",
     .either
       (.seq tagParts (.either (mark "/>") (.seq (mark ">") content)))
       (.seq (mark ">") content)]

end ThemeOverride.Script.Form
