import ThemeOverride.Script.Grammar

/-!
# Reading scripts

A script is read by the grammar of its dialect into the syntax tree of its text.

## Main definitions

* `ThemeOverride.Script.Dialect.ofFileName`: the dialect of a file.
* `ThemeOverride.Script.readProgram?`: the syntax tree of a text without errors.
* `ThemeOverride.Script.hasSyntaxErrors`: whether a text has errors.
-/

namespace ThemeOverride.Script

/-- The dialect of a file: only a name that ends in `.ts` chooses type assertions. -/
def Dialect.ofFileName (fileName : String) : Dialect :=
  if ".ts".toList.isSuffixOf fileName.toList then .typed else .markup

/-- A depth that no reading of a text reaches. -/
def depthFor (s : List Char) : Nat := 200 * (s.length + 2)

/-- Reads the start of a text by a form. -/
def readForm (dialect : Dialect) (form : Form) (s : List Char) : Option (List Tree × List Char) :=
  form.read (grammar dialect) (depthFor s) [] s

/-- The syntax tree of a text, if the grammar can read all of it. -/
def readProgram? (dialect : Dialect) (s : List Char) : Option Tree :=
  match readForm dialect Form.program s with
  | some (trees, []) => some (.node none .program trees)
  | _ => none

/-- Whether the grammar cannot read a text. -/
def hasSyntaxErrors (dialect : Dialect) (s : List Char) : Bool := (readProgram? dialect s).isNone

end ThemeOverride.Script
