import ThemeOverride.Text.Encoding
import ThemeOverride.Text.Quoted

/-!
# Faults of the disk

Why something on a disk cannot be read or made, with the number and the words that systems have
for it.

## Main definitions

* `ThemeOverride.DiskCause`: why.
* `ThemeOverride.DiskFault`: why, and at which path.
* `ThemeOverride.isTooLong`: whether a system refuses a path for its length.
* `ThemeOverride.DiskFault.message`: the words for a fault.
-/

namespace ThemeOverride

/-- Why something on a disk cannot be read or made. -/
inductive DiskCause where
  /-- Nothing lies there. -/
  | missing
  /-- Something lies there already. -/
  | present
  /-- A directory is needed there. -/
  | notDirectory
  /-- No directory may be there. -/
  | isDirectory
  /-- Too many links lead from one to the next. -/
  | linkLoop
  deriving DecidableEq, Repr

namespace DiskCause

/-- The number of a cause. -/
def number : DiskCause → Nat
  | missing => 2
  | present => 17
  | notDirectory => 20
  | isDirectory => 21
  | linkLoop => 40

/-- The words for a cause. -/
def words : DiskCause → String
  | missing => "No such file or directory"
  | present => "File exists"
  | notDirectory => "Not a directory"
  | isDirectory => "Is a directory"
  | linkLoop => "Too many levels of symbolic links"

end DiskCause

/-- Why something on a disk cannot be read or made, and at which path. -/
structure DiskFault where
  cause : DiskCause
  path : String
  deriving DecidableEq, Repr

/-- The most bytes that the text of a path can have for a system to follow it. -/
def longestPath : Nat := 4095

/-- Whether the text of a path is too long for a system to follow it. -/
def isTooLong (path : String) : Bool := longestPath < (Text.encode path).length

/-- The words for a fault of the disk. A path that is too long is refused for its length, whatever
else is wrong with it. -/
def DiskFault.message (f : DiskFault) : String :=
  let (number, words) :=
    if isTooLong f.path then (36, "File name too long") else (f.cause.number, f.cause.words)
  "[Errno " ++ toString number ++ "] " ++ words ++ ": " ++ Text.quoted f.path

end ThemeOverride
