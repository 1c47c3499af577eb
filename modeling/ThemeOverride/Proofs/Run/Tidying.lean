import ThemeOverride.Proofs.Module.Location
import ThemeOverride.Proofs.Run.Report
import ThemeOverride.Proofs.Run.Transcript

/-!
# Runs and what tidies their files

A run that gives a result has found nothing to do, and then it has changed and asked nothing; or it
has handled the source files, and then the created files are tidied once, behind the last of them.
Nothing else in a run depends on what tidies the files.

## Main definitions

* `ThemeOverride.overrideFiles` — a run up to where the created files are tidied.
* `ThemeOverride.callsIn` — the calls of a tidying command among the events of a scene.
* `ThemeOverride.Abandons` — a run ends with nothing done.
* `ThemeOverride.Tidies` — a run ends with the created files tidied.

## Main results

* `ThemeOverride.extend_eq` — a run is what it does to the source files, and the tidying behind it.
* `ThemeOverride.extend_tidies` — the two ways in which a run gives a result, and that two runs with
  different tidiers differ in what is called and noted alone.
-/

namespace ThemeOverride

variable {σ α β γ : Type}

lemma Run.bind_assoc (r : Run σ α) (next : α → Run σ β) (last : β → Run σ γ) :
    (r >>= next) >>= last = r >>= fun a => next a >>= last := by
  funext s
  change Run.bind (Run.bind r next) last s = Run.bind r (fun a => Run.bind (next a) last) s
  simp only [Run.bind]
  cases r s with
  | mk result between => cases result <;> rfl

/-- The calls of a command that tidies files among the events of a scene. -/
def callsIn (s : Scene σ) : List LintCall :=
  s.events.filterMap fun
    | .called call => some call
    | .noted _ | .askedExports _ _ | .askedStyle _ => none

section

variable (op : Operator σ) (tidier : Tidier) (settings : Settings) (task : Task)

/-- A run up to where the created files are tidied: gives the target module and the paths of the
files, or nothing if there is nothing to do. -/
def overrideFiles : Run σ (Option (Module × List String)) := do
  let d ← Run.disk
  let target ← Run.ofExcept (moduleAt d settings task.target)
  match ← prepare settings task target with
  | none => return none
  | some (job, files) =>
    Run.note [.detail ("Extending " ++ job.resource.toString ++ " into " ++
      job.directory.toString ++ ": " ++ Text.join ", " files)]
    let created := (← job.handleAll op files).map Path.toString
    return some (target, created)

/-- Tidies the created files, if there was something to do. -/
def tidyCreated : Option (Module × List String) → Run σ (List String)
  | none => pure []
  | some (target, created) => fun s =>
    (.ok created, { s with events := s.events ++ (tidier settings target.root created).events })

/-- **A run is what it does to the source files, and the tidying behind it.** -/
theorem extend_eq :
    extend op tidier settings task = overrideFiles op settings task >>= tidyCreated tidier settings := by
  unfold extend overrideFiles
  simp only [Run.bind_assoc]
  congr 1
  funext d
  congr 1
  funext target
  congr 1
  funext found
  cases found with
  | none => rfl
  | some found =>
    obtain ⟨job, files⟩ := found
    simp only [Run.bind_assoc]
    congr 1
    funext _
    congr 1
    funext paths
    funext s
    exact reportTidying_looks _ _ s

end

/-! ## Calls of the tidying command -/

namespace Run

/-- A run that calls no command. -/
def Uncalled (r : Run σ α) : Prop := ∀ s, callsIn (r s).2 = callsIn s

namespace Uncalled

protected lemma pure (a : α) : Uncalled (pure a : Run σ α) := fun _ => rfl

lemma disk : Uncalled (Run.disk : Run σ Disk) := fun _ => rfl

lemma ofExcept (e : Except Failure α) : Uncalled (Run.ofExcept e : Run σ α) := fun _ => rfl

lemma note (ns : List Note) : Uncalled (Run.note ns : Run σ Unit) := fun s => by
  simp [callsIn, Run.note]

lemma change (f : Disk → Disk × List Note × Except Failure α) : Uncalled (Run.change f : Run σ α) :=
  fun s => by simp [callsIn, Run.change]

lemma askExports (op : Operator σ) (prompt : String) (offered : List ExportRecord) :
    Uncalled (Run.askExports op prompt offered) := fun s => by simp [callsIn, Run.askExports]

lemma askStyle (op : Operator σ) (prompt : String) : Uncalled (Run.askStyle op prompt) :=
  fun s => by simp [callsIn, Run.askStyle]

protected lemma bind {r : Run σ β} {next : β → Run σ α} (hr : Uncalled r)
    (hnext : ∀ b, Uncalled (next b)) : Uncalled (r >>= next) := by
  intro s
  change callsIn (Run.bind r next s).2 = callsIn s
  have h := hr s
  unfold Run.bind
  split
  · rename_i b between heq
    rw [heq] at h
    exact (hnext b between).trans h
  · rename_i f between heq
    rw [heq] at h
    exact h

end Uncalled

end Run

namespace Job

variable (op : Operator σ) (job : Job)

open Run (Uncalled)

lemma treatStyle_uncalled : Uncalled (job.treatStyle op) := by
  unfold treatStyle
  refine (Uncalled.askStyle op _).bind fun option => ?_
  split
  · exact .pure _
  · exact (Uncalled.change _).bind fun _ => .pure _

lemma writeOverride_uncalled (fileName : String) (plan : OverridePlan) :
    Uncalled (job.writeOverride (σ := σ) fileName plan) := by
  unfold writeOverride
  split
  · exact (Uncalled.note _).bind fun _ => .pure _
  · refine (Uncalled.change _).bind fun isNew => ?_
    split
    · exact .pure _
    · exact (Uncalled.note _).bind fun _ => .pure _

lemma override_uncalled (fileName : String) (source : SourceReading) :
    Uncalled (job.override op fileName source) := by
  have hrest : ∀ (chosen : List ExportRecord) (style : Option StyleOption) (styles : List Path),
      Uncalled (if chosen.isEmpty then do
          Run.note [.caution ("Nothing was chosen to extend in " ++ fileName ++ ", skipping.")]
          return styles
        else do
          let created ← job.writeOverride fileName (job.plan fileName source chosen style)
          return styles ++ created : Run σ (List Path)) := by
    intro chosen style styles
    split
    · exact (Uncalled.note _).bind fun _ => .pure _
    · exact (writeOverride_uncalled job fileName _).bind fun _ => .pure _
  unfold override
  refine (Uncalled.askExports op _ _).bind fun answer => ?_
  dsimp only
  split
  · exact (treatStyle_uncalled op job).bind fun r => hrest _ _ _
  · exact hrest _ _ _

lemma handle_uncalled (fileName : String) : Uncalled (job.handle op fileName) := by
  have hnone : ∀ ns : List Note, Uncalled (do Run.note ns; return [] : Run σ (List Path)) :=
    fun ns => (Uncalled.note ns).bind fun _ => .pure _
  unfold handle
  split
  · exact hnone _
  · refine Uncalled.disk.bind fun d => ?_
    split
    · exact hnone _
    · refine (Uncalled.ofExcept _).bind fun code => ?_
      -- what follows the note on errors
      have hrest : ∀ source : SourceReading, Uncalled
          (if source.exports.named.isEmpty then do
            Run.note [.caution ("No named exports were found in " ++ fileName ++ ", continuing.")]
            return []
          else job.override op fileName source) := by
        intro source
        split
        · exact hnone _
        · exact override_uncalled op job fileName source
      dsimp only
      split
      · exact (Uncalled.note _).bind fun _ => hrest _
      · exact hrest _

/-- **No command is called while source files are handled.** -/
lemma handleAll_uncalled (files : List String) : Uncalled (job.handleAll op files) := by
  induction files with
  | nil => exact .pure _
  | cons fileName rest ih =>
    exact (handle_uncalled op job fileName).bind fun _ => ih.bind fun _ => .pure _

end Job

/-! ## The two ways in which a run gives a result -/

section

variable (d : Disk) (settings : Settings) (task : Task) (target : Module)

/-- No module that is searched defines the resource of a task: not the one of the source if one is
given, and none of the candidates otherwise. -/
def IsUndefined : Prop :=
  match task.source with
  | some p => ∃ root, moduleRoot d settings.markerFile p = .ok root ∧
      resourceIn? d settings root task.type task.name = none
  | none => (candidates d settings target.root).failure? = none ∧
      ∀ root ∈ (candidates d settings target.root).roots,
        resourceIn? d settings root task.type task.name = none

/-- The resource of a task belongs to the target module itself. -/
def IsOwn : Prop :=
  ∃ resource source root,
    (locate d settings task.type task.name target.root task.source).2 = .ok resource ∧
    moduleAt d settings resource = .ok source ∧
    resolvePath d source.root = .ok root ∧ resolvePath d target.root = .ok root

variable {d settings task target}

lemma isUndefined_of_locate {type name : String} {searched : List String}
    (h : (locate d settings task.type task.name target.root task.source).2 =
      .error (.resourceNotFound type name searched)) : IsUndefined d settings task target := by
  unfold IsUndefined
  unfold locate at h
  cases hsource : task.source with
  | none =>
    rw [hsource] at h
    obtain ⟨hroots, hfailure⟩ := searchTrail_error h
    refine ⟨?_, hroots⟩
    cases hf : (candidates d settings target.root).failure? with
    | none => rfl
    | some f =>
      rw [hf] at hfailure
      exact absurd (hf.trans (congrArg some hfailure)) (failure?_candidates d settings _ _ _ _)
  | some p =>
    rw [hsource] at h
    dsimp only at h ⊢
    cases hroot : moduleRoot d settings.markerFile p with
    | error f =>
      rw [hroot] at h
      cases h
      exact absurd hroot (NeverUnfound.moduleRoot d settings.markerFile p _ _ _)
    | ok root =>
      rw [hroot] at h
      exact ⟨root, rfl, (searchTrail_error h).1 root (by simp [Trail.roots])⟩

/-- What is found lies in a module that defines it. -/
lemma resourceIn?_of_locate {resource : Path}
    (h : (locate d settings task.type task.name target.root task.source).2 = .ok resource) :
    ∃ root, resourceIn? d settings root task.type task.name = some resource := by
  unfold locate at h
  split at h
  · obtain ⟨before, winner, after, -, -, hwinner⟩ := searchTrail_ok h
    exact ⟨winner, hwinner⟩
  · split at h
    · cases h
    · obtain ⟨before, winner, after, -, -, hwinner⟩ := searchTrail_ok h
      exact ⟨winner, hwinner⟩

/-- What is found is there. -/
lemma exists_of_locate {resource : Path}
    (h : (locate d settings task.type task.name target.root task.source).2 = .ok resource) :
    d.exists resource = true := by
  obtain ⟨root, hroot⟩ := resourceIn?_of_locate h
  unfold resourceIn? at hroot
  dsimp only at hroot
  split at hroot
  · exact Disk.Grows.exists_of_isFile (List.find?_some hroot)
  · split at hroot
    · rename_i hdirectory
      cases hroot
      unfold Disk.isDirectory at hdirectory
      rw [Disk.exists, beq_iff_eq.mp hdirectory]
      rfl
    · cases hroot

/-- Where nothing is to be done, the resource is not found or belongs to the target module. -/
lemma Prepared.reason (h : Prepared settings task target d none) :
    IsUndefined d settings task target ∨ IsOwn d settings task target := by
  cases h with
  | missing h => exact .inl (isUndefined_of_locate h)
  | @impossible resource source notes h hsource hcan =>
    refine .inr ?_
    unfold canExtend at hcan
    rw [exists_of_locate h] at hcan
    simp only [Bool.not_true, Bool.false_eq_true, if_false] at hcan
    cases hroot : resolvePath d source.root with
    | error f => rw [hroot] at hcan; cases hcan
    | ok root =>
      cases htarget : resolvePath d target.root with
      | error f => rw [hroot, htarget] at hcan; cases hcan
      | ok other =>
        rw [hroot, htarget] at hcan
        dsimp only [bind, Except.bind] at hcan
        split at hcan
        · rename_i hsame
          exact ⟨resource, source, root, h, hsource, hroot, by rw [htarget, beq_iff_eq.mp hsame]⟩
        · cases hcan

end

variable (op : Operator σ) (tidier : Tidier) (settings : Settings) (task : Task) (s s' : Scene σ)
  (created : List String)

/-- **A run ends with nothing done**: the resource is not found or belongs to the target module, no
path is given, nothing is changed, and there are notes, but no question and no call. -/
structure Abandons : Prop where
  reason : ∃ target, moduleAt s.disk settings task.target = .ok target ∧
    (IsUndefined s.disk settings task target ∨ IsOwn s.disk settings task target)
  created_eq : created = []
  disk_eq : s'.disk = s.disk
  operator_eq : s'.operator = s.operator
  events_eq : ∃ ns : List Note, s'.events = s.events ++ ns.map .noted

/-- **A run ends with the created files tidied**: after the last source file, up to which no command
is called, the tidier is asked once, about the paths that the run gives, and what is left of its
copy of their list makes no difference. -/
def Tidies : Prop :=
  ∃ (target : Module) (job : Job) (files : List String) (paths : List Path) (start last : Scene σ),
    moduleAt s.disk settings task.target = .ok target ∧
    Prepared settings task target s.disk (some (job, files)) ∧
    start.disk = s.disk ∧ start.operator = s.operator ∧
    (∃ ns : List Note, start.events = s.events ++ ns.map .noted) ∧
    job.handleAll op files start = (.ok paths, last) ∧ callsIn last = callsIn s ∧
    created = paths.map Path.toString ∧
    s' = { last with events := last.events ++ (tidier settings target.root created).events }

variable {op tidier settings task s s' created}

/-- What a run does up to where the created files are tidied. -/
lemma overrideFiles_ok {found : Option (Module × List String)} {last : Scene σ}
    (h : overrideFiles op settings task s = (.ok found, last)) :
    (found = none ∧ Abandons settings task s last []) ∨
    ∃ target created, found = some (target, created) ∧ ∀ tidier, Tidies op tidier settings task s
      { last with events := last.events ++ (tidier settings target.root created).events } created := by
  obtain ⟨_, _, hdisk, h⟩ := Run.bind_eq_ok.mp h
  cases hdisk
  obtain ⟨target, _, ht, h⟩ := Run.bind_eq_ok.mp h
  rw [Run.ofExcept, Prod.mk.injEq] at ht
  obtain ⟨ht, rfl⟩ := ht
  obtain ⟨prepared, start, hprepare, h⟩ := Run.bind_eq_ok.mp h
  obtain ⟨hprepared, ns, rfl⟩ := Prepared.of_run hprepare
  cases prepared with
  | none =>
    cases h
    exact .inl ⟨rfl, ⟨target, ht, hprepared.reason⟩, rfl, rfl, rfl, ns, rfl⟩
  | some prepared =>
    obtain ⟨job, files⟩ := prepared
    obtain ⟨_, _, hnote, h⟩ := Run.bind_eq_ok.mp h
    cases hnote
    obtain ⟨paths, last, hhandled, h⟩ := Run.bind_eq_ok.mp h
    cases h
    refine .inr ⟨target, _, rfl, fun tidier => ?_⟩
    have hcalls := job.handleAll_uncalled op files
      { s with events := s.events ++ ns.map .noted ++ [.noted (.detail ("Extending " ++
        job.resource.toString ++ " into " ++ job.directory.toString ++ ": " ++
        Text.join ", " files))] }
    refine ⟨target, job, files, paths, _, last, ht, hprepared, ?_, ?_, ?_, hhandled, ?_, rfl, rfl⟩
    · rfl
    · rfl
    · refine ⟨ns ++ [.detail ("Extending " ++ job.resource.toString ++ " into " ++
        job.directory.toString ++ ": " ++ Text.join ", " files)], ?_⟩
      rw [List.map_append, ← List.append_assoc]
    · refine (congrArg (fun r => callsIn r.2) hhandled).symm.trans (hcalls.trans ?_)
      simp [callsIn]

/-- A run that gives a result has found nothing to do, or has handled the source files. -/
lemma abandons_or_tidies (h : extend op tidier settings task s = (.ok created, s')) :
    Abandons settings task s s' created ∨ Tidies op tidier settings task s s' created := by
  rw [extend_eq] at h
  obtain ⟨found, last, hfiles, h⟩ := Run.bind_eq_ok.mp h
  rcases overrideFiles_ok hfiles with ⟨rfl, habandons⟩ | ⟨target, paths, rfl, htidies⟩
  · cases h
    exact .inl habandons
  · cases h
    exact .inr (htidies tidier)

/-- **A run gives a result in one of two ways, and what tidies its files decides nothing else.** It
has found nothing to do and has done nothing, or it has handled all source files and then had the
created files tidied once. Two runs with different tidiers — which may report what they like, fail
for reasons that were not foreseen, and leave anything of their list of the files — give the same
result or fail alike, ask the same, and leave the same disk.

**Proof sketch.** The tidier occurs once in what a run is equal to, behind all that touches the disk
and asks questions (`extend_eq`). -/
theorem extend_tidies (op : Operator σ) (settings : Settings) (task : Task) (s : Scene σ) :
    (∀ tidier created s', extend op tidier settings task s = (.ok created, s') →
      Abandons settings task s s' created ∨ Tidies op tidier settings task s s' created) ∧
    ∀ tidier tidier' : Tidier,
      (extend op tidier settings task s).1 = (extend op tidier' settings task s).1 ∧
      (extend op tidier settings task s).2.disk = (extend op tidier' settings task s).2.disk ∧
      (extend op tidier settings task s).2.operator = (extend op tidier' settings task s).2.operator ∧
      Run.questions (extend op tidier settings task s).2 =
        Run.questions (extend op tidier' settings task s).2 := by
  refine ⟨fun tidier created s' => abandons_or_tidies, fun tidier tidier' => ?_⟩
  rw [extend_eq, extend_eq]
  simp only [bind, Run.bind]
  cases overrideFiles op settings task s with
  | mk result last =>
    cases result with
    | error f => exact ⟨rfl, rfl, rfl, rfl⟩
    | ok found =>
      cases found with
      | none => exact ⟨rfl, rfl, rfl, rfl⟩
      | some found =>
        exact ⟨rfl, rfl, rfl, by simp [tidyCreated, Run.questions, TidyReport.filter_isQuestion_events]⟩

/-- A tidier that calls a command with the paths of the files. -/
def Tidier.calling : Tidier := fun _ _ files => { calls := [⟨files, none⟩], left := files }

/-- A tidier that empties its list and fails in a way that was not foreseen. -/
def Tidier.failing : Tidier := fun _ _ _ => { refused := some "boom", left := [] }

theorem extend_tidies_twoModules :
    ∃ s', extend Operator.eager Tidier.calling {} Task.betweenModules ⟨Disk.twoModules, (), []⟩ =
        (.ok ["/t/src/component/X/X.style.scss", "/t/src/component/X/X.component.js"], s') ∧
      Tidies Operator.eager Tidier.calling {} Task.betweenModules ⟨Disk.twoModules, (), []⟩ s'
        ["/t/src/component/X/X.style.scss", "/t/src/component/X/X.component.js"] ∧
      callsIn s' =
        [⟨["/t/src/component/X/X.style.scss", "/t/src/component/X/X.component.js"], none⟩] ∧
      (extend Operator.eager Tidier.failing {} Task.betweenModules ⟨Disk.twoModules, (), []⟩).1 =
        .ok ["/t/src/component/X/X.style.scss", "/t/src/component/X/X.component.js"] ∧
      (extend Operator.eager Tidier.failing {} Task.betweenModules
        ⟨Disk.twoModules, (), []⟩).2.disk = s'.disk := by
  obtain ⟨s', hrun, -⟩ := extend_twoModules
  obtain ⟨hways, htidiers⟩ := extend_tidies Operator.eager {} Task.betweenModules
    ⟨Disk.twoModules, (), []⟩
  obtain ⟨hsame, -, -, -⟩ := htidiers Tidier.calling fun _ _ _ => {}
  obtain ⟨hsame', hdisk', -, -⟩ := htidiers Tidier.failing Tidier.calling
  rw [hrun] at hsame
  generalize hcalling : extend Operator.eager Tidier.calling {} Task.betweenModules
    ⟨Disk.twoModules, (), []⟩ = run at hsame hsame' hdisk'
  obtain ⟨result, last⟩ := run
  obtain rfl : result = _ := hsame
  have htidies := (hways _ _ _ hcalling).resolve_left fun h => by cases h.created_eq
  refine ⟨last, rfl, htidies, ?_, hsame', hdisk'⟩
  obtain ⟨target, _, _, _, _, before, -, -, -, -, -, -, hcalls, -, rfl⟩ := htidies
  change callsIn before = [] at hcalls
  simpa [callsIn, TidyReport.events, Tidier.calling] using hcalls

end ThemeOverride
