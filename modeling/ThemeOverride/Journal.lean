/-!
# Notes of a run

What happens while an override is made is noted: details for those who look for them, and
warnings for everyone.

## Main definitions

* `ThemeOverride.Note`: a noted line with its level.
* `ThemeOverride.Note.atLeast`: whether a note is as weighty as a level.
-/

namespace ThemeOverride

/-- How weighty a note is. -/
inductive Level where
  | debug
  | info
  | warning
  deriving DecidableEq, Repr

namespace Level

/-- The name of a level. -/
def name : Level → String
  | debug => "DEBUG"
  | info => "INFO"
  | warning => "WARNING"

/-- The weight of a level. -/
def weight : Level → Nat
  | debug => 0
  | info => 1
  | warning => 2

end Level

/-- A noted line. -/
structure Note where
  level : Level
  line : String
  deriving DecidableEq, Repr

namespace Note

/-- A note of a detail. -/
def detail (line : String) : Note := ⟨.debug, line⟩

/-- A warning. -/
def caution (line : String) : Note := ⟨.warning, line⟩

/-- Whether a note is as weighty as a level. -/
def atLeast (level : Level) (n : Note) : Bool := level.weight ≤ n.level.weight

end Note

end ThemeOverride
