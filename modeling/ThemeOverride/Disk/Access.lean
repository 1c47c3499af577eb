import ThemeOverride.Disk.Follow

/-!
# Reading and changing disks

What lies at a path can be asked for and read. Directories and files can be made where nothing
lies; nothing that lies on a disk is ever changed by these.

## Main definitions

* `ThemeOverride.Disk.isFile`, `isDirectory`, `exists`: what lies at a path, through links.
* `ThemeOverride.Disk.read`, `ThemeOverride.Disk.list`: what a file or a directory holds.
* `ThemeOverride.Disk.makeDirectories`: makes a directory and those above it.
* `ThemeOverride.Disk.createFile`, `ThemeOverride.Disk.fill`: makes an empty file, and fills it.
-/

namespace ThemeOverride.Disk

variable (d : Disk)

/-- What lies at a path, through links. -/
def nodeAt? (p : Path) : Option Node :=
  match d.follow true p with
  | .ok (.node _ node) => some node
  | _ => none

/-- Whether a file lies at a path. -/
def isFile (p : Path) : Bool :=
  match d.nodeAt? p with
  | some (.file _) => true
  | _ => false

/-- Whether a directory lies at a path. -/
def isDirectory (p : Path) : Bool := d.nodeAt? p == some .directory

/-- Whether anything lies at a path. -/
def «exists» (p : Path) : Bool := (d.nodeAt? p).isSome

/-- A fault at a path. -/
def faultAt (p : Path) (cause : DiskCause) : DiskFault := ⟨cause, p.toString⟩

/-- The content of the file at a path. -/
def read (p : Path) : Except DiskFault (List UInt8) :=
  match d.follow true p with
  | .error cause => .error (faultAt p cause)
  | .ok (.node _ (.file content)) => .ok content
  | .ok (.node _ _) => .error (faultAt p .isDirectory)
  | .ok (.vacant _) => .error (faultAt p .missing)

/-- The names in the directory at a path. -/
def list (p : Path) : Except DiskFault (List String) :=
  match d.follow true p with
  | .error cause => .error (faultAt p cause)
  | .ok (.node place .directory) => .ok (d.namesIn place)
  | .ok (.node _ _) => .error (faultAt p .notDirectory)
  | .ok (.vacant _) => .error (faultAt p .missing)

/-- The place that a path names, if nothing lies there. -/
def vacancy (p : Path) : Except DiskFault Place :=
  match d.follow false p with
  | .error cause => .error (faultAt p cause)
  | .ok (.node _ _) => .error (faultAt p .present)
  | .ok (.vacant place) => .ok place

/-- Makes a directory. -/
def makeDirectory (p : Path) : Except DiskFault Disk :=
  (d.vacancy p).map fun place => d.put place .directory

/-- A disk on which a directory could not be made: as it is, if there is one. -/
def orDirectory (p : Path) (fault : DiskFault) : Disk × Option DiskFault :=
  (d, if d.isDirectory p then none else some fault)

/-- Makes a directory and those above it that are missing, of which it is tried to make at most
`above`. The directories that could be made stay where another could not be. -/
def makeDirectoriesUpTo (d : Disk) (p : Path) : Nat → Disk × Option DiskFault
  | 0 =>
    match d.makeDirectory p with
    | .ok d => (d, none)
    | .error fault => if fault.cause == .missing then (d, some fault) else d.orDirectory p fault
  | above + 1 =>
    match d.makeDirectory p with
    | .ok d => (d, none)
    | .error fault =>
      if fault.cause != .missing then d.orDirectory p fault
      else
        match makeDirectoriesUpTo d p.parent above with
        | (d, some fault) => (d, some fault)
        | (d, none) => makeDirectoriesUpTo d p 0

/-- Makes a directory and those above it that are missing. -/
def makeDirectories (d : Disk) (p : Path) : Disk × Option DiskFault :=
  makeDirectoriesUpTo d p p.names.length

/-- Makes an empty file; also gives its place. -/
def createFile (p : Path) : Except DiskFault (Disk × Place) :=
  (d.vacancy p).map fun place => (d.put place (.file []), place)

/-- Fills the file at a place. -/
def fill (place : Place) (content : List UInt8) : Disk := d.put place (.file content)

end ThemeOverride.Disk
