import ThemeOverride.Proofs.Command.Ending
import ThemeOverride.Proofs.Console.Verbatim

/-!
# What the command shows

The command prints the paths of the created files, and the names that it offers, inside of lines with
markup. They are shown as they are exactly if nothing in them is taken for markup.

## Main results

* `ThemeOverride.printed_runExtend` — what is printed behind the questions of a run that creates files.
* `ThemeOverride.shown_verbatim` — created files and options are shown as they are.
* `ThemeOverride.shown_altered` — names in brackets are not shown.
-/

namespace ThemeOverride

open Console

/-- The line of a created file. -/
def createdLine (path : String) : Line where
  written := "  - "
  shown := "  - "
  text := path
  prints := prints_createdLine

section

variable {d : Disk} {env : Environment} {tidier : Tidier} {args : ExtendArguments} {session : Session}
  {created : List String}

lemma printed_finish (r : CommandReport) (session : Session) (lines : List String) (code : Nat) :
    (finish r session lines code).printed = (printLines session lines).1.printed := by
  unfold finish
  cases printLines session lines with
  | mk session fault => cases fault <;> rfl

/-- The lines about the created files: one tells that they follow, and each has one. -/
lemma printLines_createdLines (hne : created ≠ []) (session : Session) :
    printLines session (createdLines created) =
      printLines (session.write ("Created files:" ++ "\n")) ((created.map createdLine).map Line.raw) := by
  have hheading : plainText "[dim]Created files:[/dim]" = .ok "Created files:" := by decide
  have hraw : (created.map createdLine).map Line.raw = created.map ("  - " ++ ·) := by
    rw [List.map_map]
    rfl
  rw [createdLines, if_neg (by simpa using hne), printLines, hheading, hraw]

/-- **What is printed behind the questions of a run that creates files**: the files as they are, exactly
if nothing in their paths is taken for markup. -/
theorem printed_runExtend (h : (outcome d env tidier args session).1 = .ok created) (hne : created ≠ []) :
    (runExtend d env tidier args session).printed =
        (outcome d env tidier args session).2.operator.printed ++
          ("Created files:\n" ++ onLines (created.map ("  - " ++ ·))) ↔
      ∀ path ∈ created, Verbatim path.toList := by
  have hmeant : (created.map createdLine).map Line.meant = created.map ("  - " ++ ·) := by
    rw [List.map_map]
    rfl
  rw [runExtend_eq]
  dsimp only
  rw [h]
  dsimp only
  rw [printed_finish, printLines_createdLines hne, ← hmeant, ← String.append_assoc]
  have hiff := printLines_eq_iff
    ((outcome d env tidier args session).2.operator.write ("Created files:" ++ "\n"))
    (created.map createdLine)
  rw [List.forall_mem_map] at hiff
  exact hiff

/-- A run that creates files ends without a fault if their paths are shown as they are. -/
lemma runExtend_ends (h : (outcome d env tidier args session).1 = .ok created) (hne : created ≠ [])
    (hverbatim : ∀ path ∈ created, Verbatim path.toList) :
    (runExtend d env tidier args session).exitCode = 0 ∧
      (runExtend d env tidier args session).escaped = none := by
  rw [runExtend_eq]
  dsimp only
  rw [h]
  dsimp only
  unfold finish
  rw [printLines_createdLines hne, printLines_eq (by simpa [createdLine] using hverbatim)]
  exact ⟨rfl, rfl⟩

end

/-- Two modules, one of which has a store. The other one has a given name. -/
def Disk.storeBeside (name : String) : Disk where
  entries :=
    [([name], .directory), ([name, "package.json"], .file (Text.encode "\x7b\x7d")),
     (["b"], .directory), (["b", "package.json"], .file (Text.encode "\x7b\x7d")),
     (["b", "src"], .directory), (["b", "src", "store"], .directory),
     (["b", "src", "store", "X"], .directory),
     (["b", "src", "store", "X", "X.reducer.js"], .file (Text.encode "export const a = 1"))]

/-- What is asked for where the store of one of the two modules is to be extended in the other. -/
def ExtendArguments.storeFrom (target : String) : ExtendArguments where
  type := .store
  name := "X"
  target := target
  source := some "/b"

/-- The line that picks the first export. -/
def Console.Session.firstPicked : Session where
  lines := ["1"]

end ThemeOverride
