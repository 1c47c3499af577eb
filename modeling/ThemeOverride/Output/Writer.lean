import ThemeOverride.Disk.Access
import ThemeOverride.Failure

/-!
# Writing files

A file is written only where there is none: it is looked whether something is there, the
directories above are made, the file is created on condition that it is new, and then filled. So
what is there is never written over, even if it appears in between.

## Main definitions

* `ThemeOverride.writeOutcome`: what a fault of the disk means for a file to be written.
* `ThemeOverride.writeNew`: writes a file where there is none.
-/

namespace ThemeOverride

/-- What a fault of the disk means for a file to be written: that something is there, or that it
cannot be written. -/
def writeOutcome (p : Path) (fault : DiskFault) : Except Failure Bool :=
  if fault.cause == .present then .ok false
  else .error (.output p.toString (some fault.message))

/-- Creates a file on condition that it is new, and fills it. -/
def createFilled (d : Disk) (p : Path) (content : String) : Disk × Except Failure Bool :=
  match d.createFile p with
  | .error fault => (d, writeOutcome p fault)
  | .ok (d, place) => (d.fill place (Text.encode content), .ok true)

/-- Writes a file where there is none, and tells whether it did. -/
def writeNew (d : Disk) (p : Path) (content : String) : Disk × Except Failure Bool :=
  if d.exists p then (d, .ok false)
  else
    match d.makeDirectories p.parent with
    | (d, some fault) => (d, writeOutcome p fault)
    | (d, none) => createFilled d p content

end ThemeOverride
