import Mathlib.Tactic.Lemma
import ThemeOverride.Proofs.Module.Faults
import ThemeOverride.Run.Extend

/-!
# Before and behind the source files

Before a run handles source files it looks for what there is to do, and behind the last of them it
tells what has tidied the created files. Neither changes the disk or asks anything: what comes of
it, and the events that it leaves, follow from the disk alone.

## Main definitions

* `ThemeOverride.Run.Looks` — a run only looks at the disk.
* `ThemeOverride.Prepared` — what comes of finding a resource.
* `ThemeOverride.findJob` — the same as a function of the disk, with what is noted.
* `ThemeOverride.reportTidying` — what a run does with the report of its tidier.

## Main results

* `ThemeOverride.prepare_looks`, `ThemeOverride.reportTidying_looks` — both only look at the disk.
* `ThemeOverride.prepared_iff` — the two ways to say what is found.
-/

namespace ThemeOverride

variable {σ α β : Type}

namespace Run

/-- **A run only looks at the disk** if what comes of it, and the events that it leaves, are
functions of the disk. -/
def Looks (r : Run σ α) (outcome : Disk → Except Failure α) (left : Disk → List Event) : Prop :=
  ∀ s, r s = (outcome s.disk, { s with events := s.events ++ left s.disk })

/-! ## Steps that only look -/

section

variable {next : β → Run σ α} (s : Scene σ)

@[simp]
lemma pure_apply (a : α) : (pure a : Run σ α) s = (.ok a, s) := rfl

@[simp]
lemma ofExcept_apply (e : Except Failure α) : (ofExcept e : Run σ α) s = (e, s) := rfl

@[simp]
lemma ofExcept_ok_bind_apply (b : β) : (ofExcept (.ok b) >>= next) s = next b s := rfl

@[simp]
lemma ofExcept_error_bind_apply (f : Failure) :
    ((ofExcept (.error f) : Run σ β) >>= next) s = (.error f, s) := rfl

@[simp]
lemma disk_bind_apply {next : Disk → Run σ α} : (disk >>= next) s = next s.disk s := rfl

@[simp]
lemma note_bind_apply {next : Unit → Run σ α} (ns : List Note) :
    (note ns >>= next) s = next () { s with events := s.events ++ ns.map .noted } := rfl

end

end Run

/-! ## Finding a resource -/

section

variable (settings : Settings) (task : Task)

/-- **What comes of finding a resource**: nothing is to be done if it is not found or cannot be
extended, and otherwise there are a job and its files. -/
inductive Prepared (target : Module) (d : Disk) : Option (Job × List String) → Prop
  | missing {type name : String} {searched : List String}
      (h : (locate d settings task.type task.name target.root task.source).2 =
        .error (.resourceNotFound type name searched)) : Prepared target d none
  | impossible {resource : Path} {source : Module} {notes : List Note}
      (h : (locate d settings task.type task.name target.root task.source).2 = .ok resource)
      (hsource : moduleAt d settings resource = .ok source)
      (hcan : canExtend d resource source.root target.root task.type task.name =
        .ok (notes, false)) : Prepared target d none
  | found {resource directory : Path} {source : Module} {notes : List Note} {files : List String}
      (h : (locate d settings task.type task.name target.root task.source).2 = .ok resource)
      (hsource : moduleAt d settings resource = .ok source)
      (hcan : canExtend d resource source.root target.root task.type task.name = .ok (notes, true))
      (hfiles : fileList d settings task.type task.name resource = .ok files)
      (hdirectory : targetDirectory d (task.type.directory task.name) target.root
        source.isExtension source.name = .ok directory) :
      Prepared target d (some (⟨task, settings, resource, source, directory⟩, files))

/-- What is found on a disk for a task, with what is noted on the way. -/
def findJob (target : Module) (d : Disk) :
    Except Failure (Option (Job × List String)) × List Note :=
  let (notes, located) := locate d settings task.type task.name target.root task.source
  match located with
  | .error (.resourceNotFound type name searched) =>
    (.ok none, notes ++ [.caution (Failure.resourceNotFound type name searched).message])
  | .error f => (.error f, notes)
  | .ok resource =>
    match moduleAt d settings resource with
    | .error f => (.error f, notes)
    | .ok source =>
      match canExtend d resource source.root target.root task.type task.name with
      | .error f => (.error f, notes)
      | .ok (reasons, false) => (.ok none, notes ++ reasons)
      | .ok (reasons, true) =>
        ((fileList d settings task.type task.name resource).bind fun files =>
          (targetDirectory d (task.type.directory task.name) target.root source.isExtension
            source.name).map fun directory =>
            some (⟨task, settings, resource, source, directory⟩, files),
        notes ++ reasons)

variable {settings task} {target : Module} {d : Disk}

/-- **Finding a resource only looks at the disk.** -/
theorem prepare_looks : (prepare (σ := σ) settings task target).Looks
    (fun d => (findJob settings task target d).1)
    fun d => (findJob settings task target d).2.map .noted := by
  intro s
  unfold prepare findJob
  simp only [Run.disk_bind_apply, Run.note_bind_apply]
  generalize locate s.disk settings task.type task.name target.root task.source = r
  obtain ⟨notes, located⟩ := r
  cases located with
  | error f => cases f <;> simp
  | ok resource =>
    dsimp only
    cases moduleAt s.disk settings resource with
    | error f => simp
    | ok source =>
      simp only [Run.ofExcept_ok_bind_apply]
      cases canExtend s.disk resource source.root target.root task.type task.name with
      | error f => simp
      | ok r =>
        obtain ⟨reasons, possible⟩ := r
        cases possible with
        | false => simp
        | true =>
          simp only [Run.ofExcept_ok_bind_apply, Run.note_bind_apply, Bool.not_true,
            Bool.false_eq_true, if_false]
          cases fileList s.disk settings task.type task.name resource with
          | error f => simp [Except.bind]
          | ok files =>
            cases targetDirectory s.disk (task.type.directory task.name) target.root
              source.isExtension source.name <;> simp [Except.bind, Except.map]

/-- What is found, as the relation has it and as the function does. -/
lemma prepared_iff {found : Option (Job × List String)} :
    Prepared settings task target d found ↔ (findJob settings task target d).1 = .ok found := by
  constructor
  · intro h
    cases h with
    | missing h => simp [findJob, h]
    | impossible h hsource hcan => simp [findJob, h, hsource, hcan]
    | found h hsource hcan hfiles hdirectory =>
      simp [findJob, h, hsource, hcan, hfiles, hdirectory, Except.bind, Except.map]
  · intro h
    unfold findJob at h
    dsimp only at h
    split at h
    · rename_i hlocate
      cases h
      exact .missing hlocate
    · cases h
    · rename_i resource hlocate
      split at h
      · cases h
      · rename_i source hsource
        split at h
        · cases h
        · rename_i reasons hcan
          cases h
          exact .impossible hlocate hsource hcan
        · rename_i reasons hcan
          obtain ⟨files, hfiles, h⟩ := Except.bind_eq_ok.mp h
          obtain ⟨directory, hdirectory, rfl⟩ := Except.map_eq_ok.mp h
          exact .found hlocate hsource hcan hfiles hdirectory

/-- What is found is what the disk says, and only notes are left. -/
lemma Prepared.of_run {s s' : Scene σ} {found : Option (Job × List String)}
    (h : prepare settings task target s = (.ok found, s')) :
    Prepared settings task target s.disk found ∧
      ∃ ns : List Note, s' = { s with events := s.events ++ ns.map .noted } := by
  rw [prepare_looks s, Prod.mk.injEq] at h
  exact ⟨prepared_iff.mpr h.1, _, h.2.symm⟩

/-- One thing comes of finding a resource. -/
lemma Prepared.unique {r r' : Option (Job × List String)}
    (h : Prepared settings task target d r) (h' : Prepared settings task target d r') : r = r' :=
  Except.ok.inj ((prepared_iff.mp h).symm.trans (prepared_iff.mp h'))

end

/-! ## Telling what has tidied the created files -/

/-- What happens when the created files are tidied. -/
def TidyReport.events (report : TidyReport) : List Event :=
  report.calls.map .called ++ report.notes.map .noted ++
    (report.refused.map fun reason =>
      Event.noted (.caution ("Lint auto-fix failed: " ++ reason))).toList

/-- What a run does with the report of its tidier. -/
def reportTidying (report : TidyReport) (created : List String) : Run σ (List String) := do
  report.calls.forM fun call => Run.happen (.called call)
  Run.note report.notes
  match report.refused with
  | none => return created
  | some reason =>
    Run.note [.caution ("Lint auto-fix failed: " ++ reason)]
    return created

/-- Calls of a command, one after the other, are events in their order. -/
lemma forM_called_bind_apply (calls : List LintCall) (next : PUnit → Run σ α) (s : Scene σ) :
    ((calls.forM fun call => Run.happen (.called call)) >>= next) s =
      next () { s with events := s.events ++ calls.map .called } := by
  induction calls generalizing s with
  | nil =>
    rw [List.map_nil, List.append_nil]
    rfl
  | cons call calls ih =>
    have hrest := ih { s with events := s.events ++ [.called call] }
    rw [List.append_assoc] at hrest
    exact hrest

/-- **What follows the source files only looks at the disk**: it gives the paths of the created
files, whatever tidies these. -/
theorem reportTidying_looks (report : TidyReport) (created : List String) :
    (reportTidying (σ := σ) report created).Looks (fun _ => .ok created) fun _ => report.events := by
  intro s
  unfold reportTidying TidyReport.events
  rw [forM_called_bind_apply, Run.note_bind_apply]
  cases report.refused with
  | none => simp
  | some reason => simp

end ThemeOverride
