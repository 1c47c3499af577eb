import ThemeOverride.Command.Basic

/-!
# The program

Reads what the command can look at into a disk, and runs the command on it. Each time that a
question is not answered by the lines typed so far, another line is read and the command is run
again with it; only what it prints and notes beyond the last time is shown. In the end, what is
new on the disk is written out.

Of the system's files, those are read that lead to the current directory and to the paths that
the arguments name, the settings, and the manifests and sources of the modules on these ways and
of the modules that they state.

## Main definitions

* `ThemeOverride.Program.loadWay`, `loadBelow`: read what lies on a way and below a directory.
* `ThemeOverride.Program.loadFor`: reads what the command can look at.
* `ThemeOverride.Program.converse`: runs the command as lines are typed.
-/

namespace ThemeOverride.Program

/-- The version of the program. -/
def version : String := "0.1.0"

/-- What was read of the system's files: a disk, and the directories that were read whole. -/
structure Loaded where
  disk : Disk
  whole : List Place := []

/-- What reads the system's files. -/
abbrev Loading := StateT Loaded IO

/-- Does something that can fail; the default stands for a failure. -/
def attempt {α : Type} (default : α) (act : IO α) : Loading α := do
  try act catch _ => pure default

/-- The text of a place. -/
def textOf (place : Place) : String := (Path.mk "/" place).toString

/-- Puts something on the disk. -/
def put (place : Place) (node : Node) : Loading Unit :=
  modify fun loaded => { loaded with disk := loaded.disk.put place node }

/-- What kind of thing lies at a place, if one does. -/
def kindAt (place : Place) : Loading (Option IO.FS.FileType) :=
  attempt none do
    let p := (← IO.currentDir) / textOf place
    return some (← p.symlinkMetadata).type

/-- The place that a path of the system leads to in the end, if there is one. -/
def endOf (p : String) : Loading (Option Place) :=
  attempt none do return some (Path.ofString (← IO.FS.realPath p).toString).names

/-- The names in a directory. -/
def namesAt (directory : Place) : Loading (List String) :=
  attempt [] do
    let p := (← IO.currentDir) / textOf directory
    return (← p.readDir).toList.map (·.fileName)

/-- Reads what lies on the way that names lead from a place. -/
partial def loadWay (place : Place) : List String → Loading Unit
  | [] => pure ()
  | ".." :: rest => loadWay place.dropLast rest
  | name :: rest => do
    let next := place ++ [name]
    match ← kindAt next with
    | some .dir =>
      if ((← get).disk.node? next).isNone then put next .directory
      loadWay next rest
    | some .file =>
      if ((← get).disk.node? next).isNone then
        put next (.file (← attempt [] do return (← IO.FS.readBinFile (textOf next)).toList))
    | some .symlink =>
      let target := (← endOf (textOf next)).getD (next ++ ["nothing"])
      put next (.link ⟨"/", target⟩)
      if target.take next.length != next then loadWay [] (target ++ rest)
    | _ => pure ()

/-- Reads what lies on the way of a path. -/
def loadPath (p : Path) : Loading Unit := do loadWay ((← get).disk.start p) p.names

/-- Reads all that lies below a directory. -/
partial def loadBelow (directory : Place) : Loading Unit := do
  if (← get).whole.contains directory then return
  modify fun loaded => { loaded with whole := directory :: loaded.whole }
  for name in ← namesAt directory do
    loadWay directory [name]
    match ← kindAt (directory ++ [name]) with
    | some .dir => loadBelow (directory ++ [name])
    | some .symlink =>
      if let some target ← endOf (textOf (directory ++ [name])) then loadBelow target
    | _ => pure ()

/-- Reads the manifests and the sources of the modules at and above a path. -/
def loadAround (settings : Settings) (p : Path) : Loading Unit := do
  loadPath p
  let some place ← endOf p.toString | return
  for depth in List.range (place.length + 1) do
    let directory := place.take depth
    loadPath ((Path.mk "/" directory).child settings.markerFile)
    if isModuleRoot (← get).disk settings.markerFile ⟨"/", directory⟩ then
      loadWay directory ["src"]
      if let some sources ← endOf (textOf (directory ++ ["src"])) then loadBelow sources

/-- Reads the modules at and above a path, those that the nearest of them states, and the ones
that these state. -/
partial def loadModules (settings : Settings) (p : Path) : Loading Unit := do
  loadAround settings p
  let disk := (← get).disk
  if let .ok m := moduleAt disk settings p then
    for stated in statedPaths disk settings m do
      let marker := stated.child settings.markerFile
      if !(disk.isFile marker) then
        loadPath marker
        if (← get).disk.isFile marker then loadModules settings stated

/-- Reads what a command can look at. -/
def loadFor (env : Environment) (args : List String) : Loading Unit := do
  loadPath ⟨"/", (← get).disk.here⟩
  for name in projectFile :: settingsFiles do loadPath (.ofString name)
  if let some (.extend a) := parseArguments args then
    a.config.forM (loadPath ∘ Path.ofString)
    if let .ok settings := loadSettings (← get).disk env a.config then
      loadModules settings (.ofString a.target)
      a.source.forM (loadAround settings ∘ Path.ofString)

/-- The variables of the environment that settings are taken from. -/
def environment : IO Environment := do
  let names := SettingKey.all.map fun key => ("extendgen_" ++ key.name).toUpper
  names.filterMapM fun name => do return (← IO.getEnv name).map (name, ·)

/-- Writes what is new on a disk. -/
def writeNewEntries (before after : Disk) : IO Unit :=
  (after.newIn before).forM fun (place, node) => do
    match node with
    | .directory => IO.FS.createDir (textOf place)
    | .file content =>
      (← IO.FS.Handle.mk (textOf place) .writeNew).write ⟨content.toArray⟩
    | .link _ => pure ()

/-- Runs the command with the typed lines, and with further ones as long as a question is not
answered. `shown` and `noted` count what is shown already. -/
partial def converse (run : Console.Session → CommandReport) (lines : List String)
    (shown noted : Nat) : IO CommandReport := do
  let report := run ⟨"", lines⟩
  for note in report.notes.drop noted do
    IO.eprintln (note.level.name ++ ": " ++ note.line)
  let out ← IO.getStdout
  out.putStr (report.printed.drop shown).toString
  out.flush
  if !report.isUnanswered then return report
  let line ← (← IO.getStdin).getLine
  if line.isEmpty then return report
  converse run (lines ++ Console.typedLines line) report.printed.length report.notes.length

/-- What is told beside what the command prints. -/
def tellEnd (report : CommandReport) : IO Unit := do
  if report.exitCode == 2 then
    IO.eprintln "Usage: extendgen extend TYPE NAME [OPTIONS]\n       extendgen version"
  if report.isUnanswered then IO.eprintln "Aborted."
  if let some failure := report.escaped then IO.eprintln failure.message

/-- Runs the program with its arguments; gives the code that it ends with. Other programs are
never started, so the created files are left as they are. -/
def run (args : List String) : IO UInt32 := do
  let env ← environment
  let here := (Path.ofString (← IO.currentDir).toString).names
  let ((), loaded) ← (loadFor env args).run { disk := { here := here } }
  let tidier := commandTidier fun _ => .unavailable "no other programs are started"
  let report ← converse (runCommand loaded.disk env tidier version args) [] 0 0
  writeNewEntries loaded.disk report.disk
  tellEnd report
  return report.exitCode.toUInt32

end ThemeOverride.Program

/-- Runs the program. -/
def main (args : List String) : IO UInt32 := ThemeOverride.Program.run args
