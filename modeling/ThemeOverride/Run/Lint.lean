import ThemeOverride.Journal
import ThemeOverride.Text.Character
import ThemeOverride.Text.Split

/-!
# Tidying created files

A command tidies the files that a run has created. They are there whether or not it succeeds, so
what goes wrong with it is only noted.

## Main definitions

* `ThemeOverride.LintCall`, `ThemeOverride.LintOutcome`: a call of the command, and how it ends.
* `ThemeOverride.TidyReport`: what was called and noted, and whether something unforeseen happened.
* `ThemeOverride.tidy`: calls the command for files.
-/

namespace ThemeOverride

/-- A call of a command in a directory. -/
structure LintCall where
  command : List String
  directory : Option String
  deriving DecidableEq, Repr

/-- How the call of a command ends: with a code and texts, or not at all for a reason, which may
be one that was not foreseen. -/
inductive LintOutcome where
  | finished (code : Int) (output errors : String)
  | unavailable (reason : String)
  | refused (reason : String)
  deriving DecidableEq, Repr

/-- What was called and noted, the reason if something unforeseen happened, and what the list of
files holds afterwards. -/
structure TidyReport where
  calls : List LintCall := []
  notes : List Note := []
  refused : Option String := none
  left : List String := []
  deriving DecidableEq, Repr

/-- The text that a command leaves: its errors, or else its output. -/
def lintText (output errors : String) : String :=
  let stripped := fun (s : String) => String.ofList (Text.strip s.toList)
  if stripped errors == "" then stripped output else stripped errors

/-- Calls a command for files, if there are any. -/
def tidy (run : LintCall → LintOutcome) (command : List String) (directory : Option String)
    (files : List String) : TidyReport :=
  match command with
  | [] => { left := files }
  | program :: _ =>
    if files.isEmpty then {}
    else
      let call : LintCall := ⟨command ++ files, directory⟩
      match run call with
      | .finished code output errors =>
        { calls := [call]
          notes :=
            if code == 0 then []
            else [.caution ("Lint auto-fix exited with code " ++ toString code ++ ": " ++
              lintText output errors)]
          left := files }
      | .unavailable reason =>
        { calls := [call], notes := [.caution ("Could not run " ++ program ++ ": " ++ reason)]
          left := files }
      | .refused reason => { calls := [call], refused := some reason, left := files }

end ThemeOverride
