import Mathlib.Data.List.Forall2
import ThemeOverride.Proofs.Disk.Growth
import ThemeOverride.Proofs.Disk.Proper
import ThemeOverride.Proofs.Run.Ends
import ThemeOverride.Proofs.Run.Triple

/-!
# What a run reports

A run that makes an override only adds to the disk. The paths that it gives in the end are
exactly those of the files it has created, each once and in the order of their creation.

## Main definitions

* `ThemeOverride.Job.outputs` — the files that may be created for a source file, in their order.
* `ThemeOverride.Job.Located` — a job whose resource and target are those of a task.
* `ThemeOverride.Job.Ordered` — paths in the order in which the source files are handled.
* `ThemeOverride.Report` — what the result of a run says about the disk before and after it.

## Main results

* `ThemeOverride.Job.handleAll_ensures` — handling source files grows the disk by what it gives.
* `ThemeOverride.extend_report` — a run keeps all that lies on the disk, and its result reports
  the files that are new.

## Design

The invariant of the loop is `Disk.Grows`: the disk has grown from the one at the beginning by
the paths listed so far. Every step that writes adds its own paths to the list, so that the
invariant is carried through by `Disk.Grows.append` alone.
-/

namespace ThemeOverride

namespace Job

/-! ## One source file -/

/-- The files that may be created for a source file besides its override. -/
def styleOutputs (job : Job) (fileName : String) : List Path :=
  if job.task.type.carriesStyles fileName then
    [stylePath job.settings job.directory job.task.name] else []

/-- The files that may be created for a source file, in their order: its style file, if it
carries styles, and its override. -/
def outputs (job : Job) (fileName : String) : List Path :=
  job.styleOutputs fileName ++ [job.targetPath fileName]

/-- Paths in the order in which source files are handled: for each file in turn those of its
outputs that were created, a style file before the override. -/
def Ordered (job : Job) (files : List String) (created : List Path) : Prop :=
  ∃ parts, List.Forall₂ (fun f part => part.Sublist (job.outputs f)) files parts ∧
    created = parts.flatten

section

variable {σ : Type} (op : Operator σ) (job : Job) (before : Disk) (listed : List Path)

/-- A disk that has grown by the paths listed so far and some that are given, which are among
others in their order. -/
def Wrote (possible created : List Path) (d : Disk) : Prop :=
  before.Grows (listed ++ created) d ∧ created.Sublist possible

lemma treatStyle_ensures :
    Run.Ensures (before.Grows listed) (job.treatStyle op)
      (fun r => Wrote before listed [stylePath job.settings job.directory job.task.name] r.2)
      before.Extends := by
  unfold treatStyle
  refine Run.Ensures.bind _ ((Run.quiet_askStyle op _).ensures fun d hd => hd.keeps)
    fun option => ?_
  refine Run.Ensures.ite (fun _ => ?_) (fun _ => ?_)
  · exact Run.Ensures.pure fun d hd => ⟨by simpa using hd, List.nil_sublist _⟩
  · refine Run.Ensures.bind (fun created => Wrote before listed
      [stylePath job.settings job.directory job.task.name] created.toList) ?_ fun created => ?_
    · refine Run.Ensures.change fun d hd => ?_
      obtain ⟨hkeeps, hok⟩ := createStyle_grows d job.settings job.directory job.task.name option
      refine ⟨fun created hc => ?_, fun e _ => hd.keeps.trans hkeeps⟩
      obtain ⟨hgrows, hsub⟩ := hok created hc
      exact ⟨hd.append hgrows, hsub⟩
    · exact Run.Ensures.pure fun d hd => hd

lemma writeOverride_ensures (fileName : String) (plan : OverridePlan) :
    Run.Ensures (before.Grows listed) (job.writeOverride (σ := σ) fileName plan)
      (Wrote before listed [job.targetPath fileName]) before.Extends := by
  unfold writeOverride
  split
  · refine Run.Ensures.bind _ ((Run.quiet_note _).ensures fun d hd => hd.keeps) fun _ => ?_
    exact Run.Ensures.pure fun d hd => ⟨by simpa using hd, List.nil_sublist _⟩
  · rename_i content _
    refine Run.Ensures.bind (fun isNew =>
      before.Grows (listed ++ newAt (job.targetPath fileName) (.ok isNew))) ?_ fun isNew => ?_
    · refine Run.Ensures.change fun d hd => ?_
      have hw := hd.append (writeNew_grows d (job.targetPath fileName) content)
      refine ⟨fun isNew hn => ?_, fun e _ => hw.keeps⟩
      simp only at hn
      rw [hn] at hw
      exact hw
    · refine Run.Ensures.ite (fun hn => ?_) (fun hn => ?_)
      · refine Run.Ensures.pure fun d hd => ⟨?_, List.Sublist.refl _⟩
        rw [hn] at hd
        exact hd
      · rw [Bool.not_eq_true] at hn
        subst hn
        refine Run.Ensures.bind _ ((Run.quiet_note _).ensures fun d hd => hd.keeps) fun _ => ?_
        exact Run.Ensures.pure fun d hd => ⟨hd, List.nil_sublist _⟩

lemma override_ensures (fileName : String) (source : SourceReading) :
    Run.Ensures (before.Grows listed) (job.override op fileName source)
      (Wrote before listed (job.outputs fileName)) before.Extends := by
  -- what follows the questions, when the style file is already listed
  have hrest : ∀ (chosen : List ExportRecord) (style : Option StyleOption) (styles : List Path),
      Run.Ensures (Wrote before listed (job.styleOutputs fileName) styles)
        (if chosen.isEmpty then do
          Run.note [.caution ("Nothing was chosen to extend in " ++ fileName ++ ", skipping.")]
          return styles
        else do
          let created ← job.writeOverride fileName (job.plan fileName source chosen style)
          return styles ++ created : Run σ (List Path))
        (Wrote before listed (job.outputs fileName)) before.Extends := by
    intro chosen style styles
    refine Run.Ensures.ite (fun _ => ?_) (fun _ => ?_)
    · refine Run.Ensures.bind _ ((Run.quiet_note _).ensures fun d hd => hd.1.keeps) fun _ => ?_
      exact Run.Ensures.pure fun d hd => ⟨hd.1, hd.2.trans (List.sublist_append_left _ _)⟩
    · refine Run.Ensures.of_pre fun hsub => ?_
      refine Run.Ensures.bind _ (writeOverride_ensures job before (listed ++ styles) fileName _)
        fun created => ?_
      exact Run.Ensures.pure fun d hd => ⟨by simpa using hd.1, hsub.append hd.2⟩
  unfold override
  refine Run.Ensures.bind _ ((Run.quiet_askExports op _ _).ensures fun d hd => hd.keeps)
    fun answer => ?_
  dsimp only
  generalize chosenAmong source.exports.named answer = chosen
  refine Run.Ensures.ite (fun hc => ?_) (fun hc => ?_)
  · refine Run.Ensures.bind _ (treatStyle_ensures op job before listed) fun r => ?_
    refine Run.Ensures.bind (fun r => Wrote before listed (job.styleOutputs fileName) r.2)
      ?_ fun r => ?_
    · refine Run.Ensures.pure fun d hd => ?_
      simpa [styleOutputs, hc] using hd
    · exact hrest chosen r.1 r.2
  · refine Run.Ensures.bind (fun r => Wrote before listed (job.styleOutputs fileName) r.2)
      ?_ fun r => ?_
    · exact Run.Ensures.pure fun d hd => ⟨by simpa using hd, List.nil_sublist _⟩
    · exact hrest chosen r.1 r.2

lemma handle_ensures (fileName : String) :
    Run.Ensures (before.Grows listed) (job.handle op fileName)
      (Wrote before listed (job.outputs fileName)) before.Extends := by
  have hnone : ∀ ns : List Note, Run.Ensures (before.Grows listed)
      (do Run.note ns; return [] : Run σ (List Path))
      (Wrote before listed (job.outputs fileName)) before.Extends := fun ns =>
    Run.Ensures.bind _ ((Run.quiet_note ns).ensures fun d hd => hd.keeps) fun _ =>
      Run.Ensures.pure fun d hd => ⟨by simpa using hd, List.nil_sublist _⟩
  unfold handle
  refine Run.Ensures.ite (fun _ => hnone _) (fun _ => ?_)
  refine Run.Ensures.bind (fun _ => before.Grows listed)
    (Run.Ensures.disk fun d hd => hd) fun d => ?_
  refine Run.Ensures.ite (fun _ => hnone _) (fun _ => ?_)
  refine Run.Ensures.bind (fun _ => before.Grows listed)
    (Run.Ensures.ofExcept (fun _ _ d hd => hd) fun d hd => hd.keeps) fun code => ?_
  -- what follows the note on errors
  have hrest : ∀ source : SourceReading, Run.Ensures (before.Grows listed)
      (if source.exports.named.isEmpty then do
        Run.note [.caution ("No named exports were found in " ++ fileName ++ ", continuing.")]
        return []
      else job.override op fileName source)
      (Wrote before listed (job.outputs fileName)) before.Extends := fun source =>
    Run.Ensures.ite (fun _ => hnone _) (fun _ => override_ensures op job before listed fileName _)
  dsimp only
  generalize readSource code fileName job.task.isTypescript = source
  refine Run.Ensures.ite (fun _ => ?_) (fun _ => hrest source)
  exact Run.Ensures.bind _ ((Run.quiet_note _).ensures fun d hd => hd.keeps) fun _ => hrest source

/-- **What the source files add.** Handling them one after the other grows the disk by the paths
that are given, and these are in the order of the files. -/
theorem handleAll_ensures (files : List String) :
    Run.Ensures (before.Grows listed) (job.handleAll op files)
      (fun created d => before.Grows (listed ++ created) d ∧
        job.Ordered files created) before.Extends := by
  induction files generalizing listed with
  | nil =>
    unfold handleAll
    exact Run.Ensures.pure fun d hd => ⟨by simpa using hd, [], .nil, rfl⟩
  | cons fileName rest ih =>
    unfold handleAll
    refine Run.Ensures.bind _ (handle_ensures op job before listed fileName) fun created => ?_
    refine Run.Ensures.of_pre fun hsub => ?_
    refine Run.Ensures.bind _ (ih (listed ++ created)) fun more => Run.Ensures.pure fun d hd => ?_
    obtain ⟨hgrows, parts, hparts, rfl⟩ := hd
    exact ⟨by simpa using hgrows, created :: parts, .cons hsub hparts, by simp⟩

end

/-! ## Finding the resource -/

/-- A job whose resource, source module, target directory and files are those of a task in a
target module on a disk. -/
structure Located (job : Job) (d : Disk) (settings : Settings) (task : Task) (target : Module)
    (files : List String) : Prop where
  task_eq : job.task = task
  settings_eq : job.settings = settings
  resource : (locate d settings task.type task.name target.root task.source).2 = .ok job.resource
  sourceModule : moduleAt d settings job.resource = .ok job.sourceModule
  directory : targetDirectory d (task.type.directory task.name) target.root
    job.sourceModule.isExtension job.sourceModule.name = .ok job.directory
  files_eq : fileList d settings task.type task.name job.resource = .ok files

end Job

/-- A run that only looks at the disk gives what it sees there. -/
lemma Run.Looks.ensures {σ α : Type} {r : Run σ α} {outcome : Disk → Except Failure α}
    {left : Disk → List Event} (h : r.Looks outcome left) (d : Disk) :
    Run.Ensures (· = d) r (fun a d' => d' = d ∧ outcome d = .ok a) (· = d) := by
  refine Run.ensures_iff.mpr fun s hs => ?_
  subst hs
  rw [h]
  exact ⟨fun _ ha => ⟨rfl, ha⟩, fun _ _ => rfl⟩

/-- What is found is located. -/
lemma Prepared.located {d : Disk} {settings : Settings} {task : Task} {target : Module} {job : Job}
    {files : List String} (h : Prepared settings task target d (some (job, files))) :
    job.Located d settings task target files := by
  cases h with
  | found h hsource _ hfiles hdirectory => exact ⟨rfl, rfl, h, hsource, hdirectory, hfiles⟩

/-- Finding the resource of a task changes nothing on the disk. -/
lemma prepare_ensures {σ : Type} (d : Disk) (settings : Settings) (task : Task) (target : Module) :
    Run.Ensures (· = d) (prepare (σ := σ) settings task target)
      (fun r d' => d' = d ∧ ∀ job files, r = some (job, files) →
        job.Located d settings task target files) (· = d) :=
  (prepare_looks.ensures d).weaken (fun _ hd => hd)
    (fun _ _ ⟨hd, hfound⟩ => ⟨hd, fun _ _ h => (prepared_iff.mpr (h ▸ hfound)).located⟩)
    fun _ hd => hd

/-! ## The whole run -/

/-- What the result of a run says about the disk before and after it: the paths are different,
nothing was at any of them before, a file is at each of them now, and every file that is new lies
at the end of one of them. -/
structure Report (before after : Disk) (created : List String) : Prop where
  nodup : created.Nodup
  fresh : ∀ p ∈ created, before.exists (.ofString p) = false
  present : ∀ p ∈ created, after.isFile (.ofString p) = true
  complete : ∀ place content, after.node? place = some (.file content) →
    before.node? place = none →
      ∃ p ∈ created, after.follow true (.ofString p) = .ok (.node place (.file content))

/-- The texts of the paths by which a disk has grown report what is new on it. -/
lemma Disk.Grows.report {before after : Disk} {paths : List Path} (h : before.Grows paths after)
    (hp : ∀ p ∈ paths, p.Proper) : Report before after (paths.map Path.toString) where
  nodup := h.nodup.map_on fun p hmem q hmem' he =>
    Path.eq_of_toString_eq (hp p hmem) (hp q hmem') he
  fresh := by
    intro s hs
    obtain ⟨p, hmem, rfl⟩ := List.mem_map.mp hs
    rw [Path.ofString_toString (hp p hmem)]
    exact h.fresh p hmem
  present := by
    intro s hs
    obtain ⟨p, hmem, rfl⟩ := List.mem_map.mp hs
    rw [Path.ofString_toString (hp p hmem)]
    exact h.present p hmem
  complete := by
    intro place content hn hb
    obtain ⟨p, hmem, hf⟩ := h.listed place content hn hb
    exact ⟨p.toString, List.mem_map_of_mem hmem, by rwa [Path.ofString_toString (hp p hmem)]⟩

/-- The outputs for a source file lie at proper paths. -/
lemma Job.proper_of_mem_outputs {job : Job} {fileName : String} {p : Path}
    (hd : job.directory.Proper) (hp : p ∈ job.outputs fileName) : p.Proper := by
  rcases List.mem_append.mp hp with hp | hp
  · unfold styleOutputs at hp
    split at hp
    · rw [List.mem_singleton.mp hp]
      exact hd.child _
    · cases hp
  · rw [List.mem_singleton.mp hp]
    exact hd.child _

/-- The files that a job may create lie at proper paths. -/
lemma Job.Ordered.proper {job : Job} {files : List String} {created : List Path}
    (h : job.Ordered files created) (hd : job.directory.Proper) : ∀ p ∈ created, p.Proper := by
  obtain ⟨parts, hparts, rfl⟩ := h
  intro p hp
  induction hparts with
  | nil => simp at hp
  | cons hsub _ ih =>
    rw [List.flatten_cons] at hp
    rcases List.mem_append.mp hp with hp | hp
    · exact proper_of_mem_outputs hd (hsub.subset hp)
    · exact ih hp

/-- What a result of a run says: it reports the growth of the disk, and lists the files that were
created for the source files of the task's resource, in their order. -/
def Explains (settings : Settings) (task : Task) (before after : Disk) (created : List String) :
    Prop :=
  Report before after created ∧
    (created = [] ∨ ∃ (target : Module) (job : Job) (files : List String) (paths : List Path),
      moduleAt before settings task.target = .ok target ∧
      job.Located before settings task target files ∧
      job.Ordered files paths ∧ created = paths.map Path.toString)

lemma explains_nil (settings : Settings) (task : Task) (d : Disk) :
    Explains settings task d d [] :=
  ⟨(Disk.Grows.refl d).report (by simp), Or.inl rfl⟩

lemma extend_ensures {σ : Type} (op : Operator σ) (tidier : Tidier) (settings : Settings)
    (task : Task) {before : Disk} (hd : before.Proper) (ht : task.target.Proper) :
    Run.Ensures (· = before) (extend op tidier settings task)
      (fun created d => before.Extends d ∧ Explains settings task before d created)
      before.Extends := by
  have hkeep : ∀ d, d = before → before.Extends d := by
    rintro d rfl
    exact .refl d
  unfold extend
  refine Run.Ensures.bind (fun d' d => d = before ∧ d' = before)
    (Run.Ensures.disk fun d hb => ⟨hb, hb⟩) fun d' => ?_
  refine Run.Ensures.of_pre fun hd' => ?_
  subst hd'
  refine Run.Ensures.bind (fun target d => d = d' ∧ moduleAt d' settings task.target = .ok target)
    (Run.Ensures.ofExcept (fun _ he _ hb => ⟨hb, he⟩) hkeep) fun target => ?_
  refine Run.Ensures.of_pre fun htarget => ?_
  refine Run.Ensures.bind _ ((prepare_ensures d' settings task target).weaken (fun _ hb => hb)
    (fun _ _ hb => hb) hkeep) fun r => ?_
  refine Run.Ensures.of_pre fun hlocated => ?_
  split
  · refine Run.Ensures.pure fun d hb => ?_
    subst hb
    exact ⟨.refl d, explains_nil settings task d⟩
  · rename_i job files
    have hjob := hlocated job files rfl
    have hdirectory : job.directory.Proper :=
      hd.targetDirectory (task.type.proper_directory task.name)
        (hd.moduleRoot ht (moduleRoot_of_moduleAt htarget)) hjob.directory
    refine Run.Ensures.bind (fun _ => (· = d')) ((Run.quiet_note _).ensures hkeep) fun _ => ?_
    refine Run.Ensures.bind (fun created d => d'.Grows created d ∧ job.Ordered files created)
      ((job.handleAll_ensures op d' [] files).weaken (fun d hb => by rw [hb]; exact .refl d')
        (fun created d h => by simpa using h) fun _ h => h) fun created => ?_
    refine Run.Ensures.of_pre fun hordered => ?_
    have hdone : ∀ d, d'.Grows created d → d'.Extends d ∧
        Explains settings task d' d (created.map Path.toString) := fun d hg =>
      ⟨hg.keeps, hg.report (hordered.proper hdirectory),
        Or.inr ⟨target, job, files, created, htarget, hjob, hordered, rfl⟩⟩
    dsimp only
    refine Run.Ensures.bind _ ((Run.Quiet.forM (fun _ => Run.quiet_happen _) _).ensures
      fun _ hg => hg.keeps) fun _ => ?_
    refine Run.Ensures.bind _ ((Run.quiet_note _).ensures fun _ hg => hg.keeps) fun _ => ?_
    split
    · exact Run.Ensures.pure hdone
    · refine Run.Ensures.bind _ ((Run.quiet_note _).ensures fun _ hg => hg.keeps) fun _ => ?_
      exact Run.Ensures.pure hdone

/-- **A run adds to the disk what it reports, and changes nothing else.** Whether it gives a
result or fails, everything that lay on the disk is still there as it was. A result lists the
files that are new, each once, and in the order in which the source files are handled.

**Proof sketch.** The loop over the source files carries the growth of the disk from the one at
the beginning (`Job.handleAll_ensures`); all other steps leave the disk as it is. The paths are
proper, so that their texts stand for them. -/
theorem extend_report {σ : Type} (op : Operator σ) (tidier : Tidier) (settings : Settings)
    (task : Task) (s : Scene σ) (hd : s.disk.Proper) (ht : task.target.Proper) :
    s.disk.Extends (extend op tidier settings task s).2.disk ∧
    ∀ created, (extend op tidier settings task s).1 = .ok created →
      Explains settings task s.disk (extend op tidier settings task s).2.disk created := by
  obtain ⟨hok, herr⟩ := Run.ensures_iff.mp (extend_ensures op tidier settings task hd ht) s rfl
  refine ⟨?_, fun created hc => (hok created hc).2⟩
  cases hr : (extend op tidier settings task s).1 with
  | ok created => exact (hok created hr).1
  | error f => exact herr f hr

/-- Two modules, one of which has a component. -/
def Disk.twoModules : Disk where
  entries :=
    [(["t"], .directory), (["t", "package.json"], .file (Text.encode "\x7b\x7d")),
     (["b"], .directory), (["b", "package.json"], .file (Text.encode "\x7b\x7d")),
     (["b", "src"], .directory), (["b", "src", "component"], .directory),
     (["b", "src", "component", "X"], .directory),
     (["b", "src", "component", "X", "X.component.js"],
       .file (Text.encode "export const a = 1"))]

/-- An operator who extends all that is offered, and the styles. -/
def Operator.eager : Operator Unit where
  exports _ offered s := (.ok offered, s)
  style _ s := (.ok .extend, s)

/-- The component of one of the two modules is to be extended in the other. -/
def Task.betweenModules : Task where
  type := .component
  name := "X"
  target := .ofString "/t"
  source := some (.ofString "/b")

/-- The disk after the component of one of the two modules is extended in the other. -/
def Disk.extendedModules : Disk where
  entries := Disk.twoModules.entries ++
    [(["t", "src"], .directory), (["t", "src", "component"], .directory),
     (["t", "src", "component", "X"], .directory),
     (["t", "src", "component", "X", "X.style.scss"],
       .file (Text.encode "// Additions to the original X styles\n\n.X \x7b\n\x7d\n")),
     (["t", "src", "component", "X", "X.component.js"], .file (Text.encode
       ("import \x7b a as sourceA \x7d from 'b/src/component/X/X.component';\n" ++
         "import 'b/src/component/X/X.style';\nimport './X.style';\n\n" ++
         "export const a = sourceA;\n")))]

set_option maxRecDepth 10000 in
lemma extend_twoModules : ∃ s' : Scene Unit,
    extend Operator.eager (fun _ _ _ => {}) {} Task.betweenModules ⟨Disk.twoModules, (), []⟩ =
      (.ok ["/t/src/component/X/X.style.scss", "/t/src/component/X/X.component.js"], s') ∧
    s'.disk = Disk.extendedModules := by
  generalize hrun : extend Operator.eager (fun _ _ _ => {}) {} Task.betweenModules
    ⟨Disk.twoModules, (), []⟩ = run
  obtain ⟨hresult, hentries, hhere⟩ :
      run.1 = .ok ["/t/src/component/X/X.style.scss", "/t/src/component/X/X.component.js"] ∧
      run.2.disk.entries = Disk.extendedModules.entries ∧
      run.2.disk.here = Disk.extendedModules.here := by
    rw [← hrun]
    -- the characters are spelled out, as they take long to compute from a long text
    unfold Disk.extendedModules Text.encode
    simp only [String.toList_append]
    rewrite [String.toList_ofList, String.toList_ofList, String.toList_ofList,
      String.toList_ofList]
    decide +kernel
  obtain ⟨result, ⟨⟨entries, here⟩, o, events⟩⟩ := run
  obtain rfl : result = _ := hresult
  obtain rfl : entries = _ := hentries
  obtain rfl : here = _ := hhere
  exact ⟨_, rfl, rfl⟩

theorem extend_report_twoModules :
    Disk.twoModules.Proper ∧ Task.betweenModules.target.Proper ∧
    Disk.twoModules.Extends (extend Operator.eager (fun _ _ _ => {}) {} Task.betweenModules
      ⟨Disk.twoModules, (), []⟩).2.disk ∧
    Explains {} Task.betweenModules Disk.twoModules
      (extend Operator.eager (fun _ _ _ => {}) {} Task.betweenModules
        ⟨Disk.twoModules, (), []⟩).2.disk
      ["/t/src/component/X/X.style.scss", "/t/src/component/X/X.component.js"] := by
  have hdisk : Disk.twoModules.Proper := by
    refine ⟨by simp [Disk.twoModules], fun place target h => ?_⟩
    obtain ⟨name, hmem⟩ : ∃ name, (name, Node.link target) ∈ Disk.twoModules.entries := by
      unfold Disk.node? at h
      split at h
      · cases h
      · obtain ⟨earlier, later, hentries, _⟩ := List.lookup_eq_some_iff.mp h
        exact ⟨place, by rw [hentries]; simp⟩
    simp [Disk.twoModules] at hmem
  have htask : Task.betweenModules.target.Proper := Path.proper_ofString "/t"
  obtain ⟨hkeeps, hresult⟩ := extend_report Operator.eager (fun _ _ _ => {}) {}
    Task.betweenModules ⟨Disk.twoModules, (), []⟩ hdisk htask
  obtain ⟨s', hrun, -⟩ := extend_twoModules
  exact ⟨hdisk, htask, hkeeps, hresult _ (congrArg Prod.fst hrun)⟩

end ThemeOverride
