import ThemeOverride.Command.Arguments
import ThemeOverride.Run.Extend
import ThemeOverride.Settings.Load

/-!
# The command

What the command does with its arguments, the environment, the disk and the typed lines, and what
it prints. Failures that concern the user are printed; others end the command without words.

## Main definitions

* `ThemeOverride.CommandReport`: what the command has done and printed.
* `ThemeOverride.consoleOperator`: an operator at the console.
* `ThemeOverride.runCommand`: runs the command.
-/

namespace ThemeOverride

open Console

/-- What the command has done and printed. -/
structure CommandReport where
  disk : Disk
  /-- The code that the command ends with. -/
  exitCode : Nat
  printed : String := ""
  /-- A failure that ended the command without words. -/
  escaped : Option Failure := none
  /-- Whether the command ended because a question met the end of the typed lines. -/
  isUnanswered : Bool := false
  events : List Event := []
  /-- The level of the notes that are shown. -/
  level : Level := .info

namespace CommandReport

/-- The notes that are as weighty as the level of the command. -/
def notes (r : CommandReport) : List Note :=
  (r.events.filterMap fun e => match e with
    | .noted n => some n
    | _ => none).filter (·.atLeast r.level)

end CommandReport

/-- An operator at the console. -/
def consoleOperator : Operator Session where
  exports prompt offered session :=
    match multiSelect prompt (offered.map (·.name)) session with
    | (.ok positions, session) => (.ok (positions.filterMap (offered[·]?)), session)
    | (.error fault, session) => (.error (.prompt fault), session)
  style prompt session :=
    match select prompt (StyleOption.all.map (·.description)) session with
    | (.ok n, session) => (.ok (StyleOption.all[n]?.getD .keep), session)
    | (.error fault, session) => (.error (.prompt fault), session)

/-- Whether a failure concerns the user and is printed. -/
def Failure.isPrinted : Failure → Bool
  | general _ | moduleNotFound .. | resourceNotFound .. | invalidCode .. | settings .. |
    settingProblems (some _) _ | output .. | disk _ => true
  | _ => false

/-- The lines that show what was created. -/
def createdLines (created : List String) : List String :=
  if created.isEmpty then ["[yellow]No files were created.[/yellow]"]
  else "[dim]Created files:[/dim]" :: created.map ("  - " ++ ·)

/-- Ends the command with printed lines. -/
def finish (report : CommandReport) (session : Session) (lines : List String) (code : Nat) :
    CommandReport :=
  match printLines session lines with
  | (session, none) => { report with printed := session.printed, exitCode := code }
  | (session, some fault) =>
    { report with
      printed := session.printed, exitCode := 1, escaped := some (.prompt (.markup fault)) }

/-- Ends the command with a failure. The end of the typed lines is no failure of its own. -/
def finishFailed (report : CommandReport) (session : Session) (f : Failure) : CommandReport :=
  let ended := { report with printed := session.printed, exitCode := 1 }
  if f.isPrinted then finish report session ["[red]Error:[/red] " ++ f.message] 1
  else if f == .prompt .endOfInput then { ended with isUnanswered := true }
  else { ended with escaped := some f }

/-- Runs the command that extends a resource. -/
def runExtend (d : Disk) (env : Environment) (tidier : Tidier) (args : ExtendArguments)
    (session : Session) : CommandReport :=
  let level := if args.isVerbose then Level.debug else Level.info
  let report : CommandReport := { disk := d, exitCode := 0, level := level }
  match loadSettings d env args.config with
  | .error f => finishFailed report session f
  | .ok settings =>
    let task : Task :=
      { type := args.type
        name := args.name
        target := Path.ofString args.target
        source := args.source.map Path.ofString
        isTypescript := args.isTypescript }
    match extend consoleOperator tidier settings task ⟨d, session, []⟩ with
    | (result, scene) =>
      let report := { report with disk := scene.disk, events := scene.events }
      match result with
      | .error f => finishFailed report scene.operator f
      | .ok created => finish report scene.operator (createdLines created) 0

/-- Runs the command. -/
def runCommand (d : Disk) (env : Environment) (tidier : Tidier) (version : String)
    (args : List String) (session : Session) : CommandReport :=
  match parseArguments args with
  | none => { disk := d, exitCode := 2 }
  | some .help => { disk := d, exitCode := 0 }
  | some .version =>
    finish { disk := d, exitCode := 0 } session ["extendgen version: " ++ version] 0
  | some (.extend args) => runExtend d env tidier args session

end ThemeOverride
