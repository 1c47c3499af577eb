import ThemeOverride.Text.Quoted

/-!
# Values of data files

Manifests and settings are read from data files of several formats. What they hold is a value:
nothing, a truth value, a number, a text, a list, or a table from values to values. Formats that
know other scalars, such as dates, hold them as opaque scalars.

## Main definitions

* `ThemeOverride.Value`: values.
* `ThemeOverride.Value.get?`: the value that a table holds for a text.
* `ThemeOverride.Value.isVoid`: whether a value counts as not given.
* `ThemeOverride.Value.shown`: a value as it is shown inside of a text.
-/

namespace ThemeOverride

/-- A value of a data file. The fields of a table have distinct keys. -/
inductive Value where
  | null
  | bool (b : Bool)
  | int (n : Int)
  /-- A number with a fraction or an exponent, as it is written, and whether it is zero. -/
  | decimal (written : String) (isZero : Bool)
  | text (s : String)
  | list (elements : List Value)
  | table (fields : List (Value × Value))
  /-- Another scalar, such as a date. -/
  | opaqueScalar (written : String)
  deriving Repr, Inhabited

namespace Value

/-- The text that a value is, if it is one. -/
def text? : Value → Option String
  | text s => some s
  | _ => none

/-- The value that fields hold for a text. -/
def lookup? (key : String) : List (Value × Value) → Option Value
  | [] => none
  | (text s, v) :: rest => if s == key then some v else lookup? key rest
  | _ :: rest => lookup? key rest

/-- The value that a table holds for a text; nothing for other values. -/
def get? (key : String) : Value → Option Value
  | table fields => lookup? key fields
  | _ => none

/-- Whether a value counts as not given: nothing, no, zero, or empty. -/
def isVoid : Value → Bool
  | null => true
  | bool b => !b
  | int n => n == 0
  | decimal _ isZero => isZero
  | text s => s.isEmpty
  | list elements => elements.isEmpty
  | table fields => fields.isEmpty
  | opaqueScalar _ => false

/-- A value unless it counts as not given. -/
def given? (v : Option Value) : Option Value := v.filter (!·.isVoid)

mutual

/-- A value as it is shown inside of a list or table, with texts between quotes. -/
def nested : Value → String
  | null => "None"
  | bool b => if b then "True" else "False"
  | int n => toString n
  | decimal written _ => written
  | text s => Text.quoted s
  | list elements => "[" ++ Text.join ", " (nestedElements elements) ++ "]"
  | table fields => "\x7b" ++ Text.join ", " (nestedFields fields) ++ "\x7d"
  | opaqueScalar written => written

/-- The elements of a list as they are shown. -/
def nestedElements : List Value → List String
  | [] => []
  | v :: rest => nested v :: nestedElements rest

/-- The fields of a table as they are shown. -/
def nestedFields : List (Value × Value) → List String
  | [] => []
  | (k, v) :: rest => (nested k ++ ": " ++ nested v) :: nestedFields rest

end

/-- A value as it is shown inside of a text. -/
def shown : Value → String
  | text s => s
  | v => nested v

end Value

end ThemeOverride
