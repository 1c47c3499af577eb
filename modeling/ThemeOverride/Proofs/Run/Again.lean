import Mathlib.Data.List.Infix
import ThemeOverride.Proofs.Disk.Directories
import ThemeOverride.Proofs.Disk.LinkFree
import ThemeOverride.Proofs.Module.Stability
import ThemeOverride.Proofs.Run.Report
import ThemeOverride.Proofs.Run.Turns

/-!
# Runs that are made again

A run that is made again, with the same answers and on the disk that the first run left, finds the
same resource and the same files. For each file it comes to the end that the first run came to, or
finds the override there, so that nothing is written anew.

## Main definitions

* `ThemeOverride.Job.Unhindered` — at no time is a directory for an output refused because something
  else lies there.

## Main results

* `ThemeOverride.writeNew_again`, `ThemeOverride.createStyle_again` — what was written, or could not
  be written since something lay there, is not written again.
* `ThemeOverride.Job.HandledAll.again` — source files that are handled again come to nothing new.
* `ThemeOverride.extend_again` — a run that is made again creates nothing and changes nothing.

## Design

A writer that is refused a directory because something else lies there tells that the file is there
already. That this is so can change with the next file that is written, so it is excluded here.
-/

namespace ThemeOverride

namespace Disk

variable {d after : Disk} {p : Path}

/-- Where something lies, it goes on lying. -/
lemma Extends.vacancy_present (h : d.Extends after) {fault : DiskFault}
    (hv : d.vacancy p = .error fault) (hf : fault.cause = .present) :
    ∃ fault', after.vacancy p = .error fault' ∧ fault'.cause = .present := by
  unfold vacancy at hv
  split at hv
  · rename_i cause hfollow
    cases hv
    obtain rfl : cause = .present := hf
    have hlasting : Lasting (.error .present) := trivial
    exact ⟨faultAt p .present, by simp [vacancy, h.follow_lasting hlasting hfollow], rfl⟩
  · rename_i place node hfollow
    exact ⟨faultAt p .present, by simp [vacancy, h.follow_node hfollow], rfl⟩
  · cases hv

end Disk

/-! ## Writers -/

/-- A directory is refused because something else lies there. -/
def IsRefused (d : Disk) (p : Path) : Prop :=
  ∃ fault, (d.makeDirectories p).2 = some fault ∧ fault.cause = .present

/-- A directory that is there in the end is not refused before. -/
lemma not_isRefused_of_isOpen {d after : Disk} {place : Place} (hopen : after.IsOpen place)
    (hd : d.Extends after) : ¬ IsRefused d ⟨"/", place⟩ := by
  rintro ⟨fault, hfault, -⟩
  obtain ⟨made, hmade, -⟩ := Disk.makeDirectoriesUpTo_of_isOpen hopen (Nat.le_refl _) hd
  rw [Disk.makeDirectories, hmade] at hfault
  cases hfault

/-- **What was written is not written again**, nor what could not be written since something lay
there. -/
theorem writeNew_again {d d' after : Disk} {p : Path} {content : String} {isNew : Bool}
    (h : writeNew d p content = (d', .ok isNew)) (hfree : ¬ IsRefused d p.parent)
    (hd : d'.Extends after) (content' : String) :
    writeNew after p content' = (after, .ok false) := by
  have hpresent : after.exists p = true → writeNew after p content' = (after, .ok false) := by
    intro hp
    rw [writeNew, if_pos hp]
  have hgrows := writeNew_grows d p content
  have hkeeps : d.Extends after := by
    refine Disk.Extends.trans ?_ hd
    have hk := hgrows.keeps
    rwa [h] at hk
  cases isNew with
  | true =>
    refine hpresent (hd.exists_mono (Disk.Grows.exists_of_isFile ?_))
    have hfile := hgrows.present p
    rw [h] at hfile
    exact hfile (List.mem_singleton_self p)
  | false =>
    unfold writeNew at h
    split at h
    · rename_i hp
      exact hpresent (hkeeps.exists_mono hp)
    · split at h
      · rename_i made fault hmade
        -- a directory that was refused is excluded
        refine absurd ⟨fault, by rw [hmade], ?_⟩ hfree
        rw [Prod.mk.injEq] at h
        have hout := h.2
        unfold writeOutcome at hout
        split at hout
        · rename_i hcause
          exact beq_iff_eq.mp hcause
        · cases hout
      · rename_i made hmade
        unfold createFilled at h
        split at h
        · rename_i fault hcreate
          rw [Prod.mk.injEq] at h
          obtain ⟨rfl, hout⟩ := h
          have hcause : fault.cause = .present := by
            unfold writeOutcome at hout
            split at hout
            · rename_i hcause
              exact beq_iff_eq.mp hcause
            · cases hout
          have hvacancy : made.vacancy p = .error fault := by
            unfold Disk.createFile at hcreate
            cases hv : made.vacancy p with
            | ok place => rw [hv] at hcreate; cases hcreate
            | error other => rw [hv] at hcreate; cases hcreate; rfl
          obtain ⟨fault', hv, hf⟩ := hd.vacancy_present hvacancy hcause
          have hdirectory := hd.isDirectory_mono (Disk.isDirectory_of_makeDirectories hmade)
          unfold writeNew
          split
          · rfl
          · rw [Disk.makeDirectories, Disk.makeDirectoriesUpTo_of_isDirectory hdirectory]
            simp [createFilled, Disk.createFile, hv, Except.map, writeOutcome, hf]
        · rw [Prod.mk.injEq] at h
          cases h.2

theorem createStyle_again {d d' after : Disk} {settings : Settings} {directory : Path}
    {resourceName : String} {option : StyleOption} {notes : List Note} {created : Option Path}
    (h : createStyle d settings directory resourceName option = (d', notes, .ok created))
    (hfree : ¬ IsRefused d (stylePath settings directory resourceName).parent)
    (hd : d'.Extends after) : ∃ notes', createStyle after settings directory resourceName option =
      (after, notes', .ok none) := by
  unfold createStyle at h ⊢
  dsimp only at h ⊢
  split at h
  · cases h
  · split at h
    · cases h
    · rename_i made hw
      cases h
      rw [writeNew_again hw hfree hd]
      exact ⟨_, rfl⟩
    · rename_i made hw
      cases h
      rw [writeNew_again hw hfree hd]
      exact ⟨_, rfl⟩

/-! ## Source files -/

namespace Job

variable {job : Job} {answers : Answers} {fileName : String} {files : List String}
  {before after d d' : Disk} {created : List Path} {asked : List Event}

/-- **Nothing stands in the way** of the outputs for source files: on no disk between two is the
directory above one of them refused because something else lies there. -/
def Unhindered (job : Job) (files : List String) (before after : Disk) : Prop :=
  ∀ fileName ∈ files, ∀ p ∈ job.outputs fileName, ∀ d : Disk, before.Extends d → d.Extends after →
    ¬ IsRefused d p.parent

lemma mem_outputs_targetPath (job : Job) (fileName : String) :
    job.targetPath fileName ∈ job.outputs fileName := by
  simp [outputs]

lemma mem_outputs_stylePath (h : job.task.type.carriesStyles fileName = true) :
    stylePath job.settings job.directory job.task.name ∈ job.outputs fileName := by
  simp [outputs, styleOutputs, h]

section

variable (hfree : ∀ p ∈ job.outputs fileName, ∀ d : Disk, before.Extends d → d.Extends after →
    ¬ IsRefused d p.parent)

include hfree

/-- Styles that are treated again are treated alike, and no style file is new. -/
lemma Styled.again {r : Option StyleOption × List Path}
    (h : Styled job answers fileName d r d' asked) (hd : before.Extends d)
    (hafter : d'.Extends after) : Styled job answers fileName after (r.1, []) after asked := by
  cases h with
  | none hnone => exact .none hnone
  | keep hcarries ha => exact .keep hcarries ha
  | @file _ option notes created hcarries ha hk hc =>
    have hkeeps : d.Extends d' := (Styled.file hcarries ha hk hc).extension
    have hrefused := hfree _ (mem_outputs_stylePath hcarries) d hd (hkeeps.trans hafter)
    obtain ⟨notes', hagain⟩ := createStyle_again hc hrefused hafter
    exact .file hcarries ha hk hagain

lemma Written.again {plan : OverridePlan} (h : Written job fileName plan d created d')
    (hd : before.Extends d) (hafter : d'.Extends after) :
    Written job fileName plan after [] after := by
  cases h with
  | failed herror => exact .failed herror
  | tried hok hw =>
    have hkeeps : d.Extends d' := (Written.tried hok hw).extension
    have hrefused := hfree _ (mem_outputs_targetPath job fileName) d hd (hkeeps.trans hafter)
    have hagain := writeNew_again hw hrefused hafter
    exact .tried hok (hagain _)

lemma Overridden.again {source : SourceReading}
    (h : Overridden job answers fileName source d created d' asked) (hd : before.Extends d)
    (hafter : d'.Extends after) :
    Overridden job answers fileName source after [] after asked := by
  cases h with
  | nothing ha hs hc => exact .nothing ha (hs.again hfree hd hafter) hc
  | chosen ha hs hc hw =>
    have hstyled := hs.again hfree hd (hw.extension.trans hafter)
    have hwritten := hw.again hfree (hd.trans hs.extension) hafter
    exact .chosen ha hstyled hc hwritten

/-- **A source file that is handled again comes to nothing new.** -/
theorem Handled.again (h : Handled job answers fileName d created d' asked) (hd : before.Extends d)
    (hafter : d'.Extends after) : ∃ asked', Handled job answers fileName after [] after asked' := by
  cases hskip : job.isSkipped fileName with
  | true => exact ⟨[], .skipped hskip⟩
  | false =>
    cases hp : after.exists (job.targetPath fileName) with
    | true => exact ⟨[], .present hskip hp⟩
    | false =>
      -- the override was not there before either, and what was read is read again
      have hread : ∀ {code}, d.Extends after →
          readText d (job.sourcePath fileName) = .ok code →
          readText after (job.sourcePath fileName) = .ok code := by
        intro code hk hr
        unfold readText at hr ⊢
        split at hr
        · cases hr
        · rename_i content hcontent
          rwa [hk.read_eq_ok hcontent]
      cases h with
      | skipped hyes => rw [hskip] at hyes; cases hyes
      | present _ hyes =>
        rw [hafter.exists_mono hyes] at hp
        cases hp
      | bare _ _ hr hn => exact ⟨[], .bare hskip hp (hread hafter hr) hn⟩
      | overridden _ hno hr hn ho =>
        have hkeeps : d.Extends d' := (Handled.overridden hskip hno hr hn ho).extension
        exact ⟨asked, .overridden hskip hp (hread (hkeeps.trans hafter) hr) hn
          (ho.again hfree hd hafter)⟩

end

/-- **Source files that are handled again come to nothing new.** -/
theorem HandledAll.again (h : HandledAll job answers files d created d' asked)
    (hfree : job.Unhindered files before after) (hd : before.Extends d)
    (hafter : d'.Extends after) : ∃ asked', HandledAll job answers files after [] after asked' := by
  induction h with
  | nil => exact ⟨[], .nil⟩
  | cons h hrest ih =>
    obtain ⟨asked₁, hfirst⟩ := h.again (hfree _ List.mem_cons_self) hd (hrest.extension.trans hafter)
    obtain ⟨asked₂, hmore⟩ := ih (fun f hf => hfree f (List.mem_cons_of_mem _ hf))
      (hd.trans h.extension) hafter
    exact ⟨asked₁ ++ asked₂, .cons hfirst hmore⟩

end Job

/-! ## The whole run -/

section

variable {settings : Settings} {task : Task} {before after : Disk} {target : Module}

/-- **The resource is found again**, with the same files, and its override goes to the same
directory. -/
theorem Prepared.again {job : Job} {files : List String}
    (h : Prepared settings task target before (some (job, files)))
    (hu : Undisturbed settings task before after) (ha : before.Adds after) (hs : before.Sound)
    (hm : IsRelativeMarker settings.markerFile)
    (ht : moduleAt before settings task.target = .ok target) :
    Prepared settings task target after (some (job, files)) := by
  cases h with
  | @found resource directory source notes files hlocate hsource hcan hfiles hdirectory =>
    obtain ⟨root, hroot, hlooked⟩ := exists_lookedAt hlocate
    have hlocate' := hlocate
    rw [← hu.locate_eq ha hs.noUp hm ht] at hlocate'
    have hsource' := hsource
    rw [← hu.moduleAt_eq ha hs.noUp hm] at hsource'
    have hcan' : canExtend after resource source.root target.root task.type task.name =
        .ok (notes, true) := by
      unfold canExtend at hcan ⊢
      rw [hu.resolvePath_eq ha, hu.resolvePath_eq ha]
      cases hexists : before.exists resource with
      | false => rw [hexists] at hcan; cases hcan
      | true =>
        rw [hexists] at hcan
        rwa [ha.keeps.exists_mono hexists]
    have hdirectory' : targetDirectory after (task.type.directory task.name) target.root
        source.isExtension source.name = .ok directory := by
      unfold targetDirectory at hdirectory ⊢
      rwa [hu.resolvePath_eq ha]
    exact .found hlocate' hsource' hcan'
      (fileList_eq ha hs (hu.resource target ht root hroot resource hlooked) hfiles) hdirectory'

/-- The override of a resource goes to a proper directory. -/
lemma Prepared.proper {job : Job} {files : List String}
    (h : Prepared settings task target before (some (job, files))) (hd : before.Proper)
    (hp : task.target.Proper) (ht : moduleAt before settings task.target = .ok target) :
    job.directory.Proper := by
  cases h with
  | found _ _ _ _ hdirectory =>
    exact hd.targetDirectory (task.type.proper_directory task.name)
      (hd.moduleRoot hp (moduleRoot_of_moduleAt ht)) hdirectory

variable {σ : Type} {op : Operator σ} {answers : Answers}

/-- **A run that is made again creates nothing and changes nothing.** The operator answers alike
both times. Nothing came into being in the first run that it looks at to find the resource, and no
directory for an output was refused because something else lies there.

**Proof sketch.** The disk was only added to, so that the same resource is found with the same files
(`Prepared.again`). Each file comes to the end it came to, or its override is there
(`Job.HandledAll.again`). -/
theorem extend_again (hop : op.Follows answers) (tidier : Tidier) {s s' : Scene σ}
    {created : List String} (hrun : extend op tidier settings task s = (.ok created, s'))
    (hs : s.disk.Sound) (hp : task.target.Proper) (hm : IsRelativeMarker settings.markerFile)
    (hu : Undisturbed settings task s.disk s'.disk)
    (hfree : ∀ target job files, moduleAt s.disk settings task.target = .ok target →
      Prepared settings task target s.disk (some (job, files)) →
      job.Unhindered files s.disk s'.disk)
    (t : Scene σ) (hdisk : t.disk = s'.disk) :
    ∃ t', extend op tidier settings task t = (.ok [], t') ∧ t'.disk = s'.disk := by
  have hbehaves := extend_behaves hop tidier settings task
  obtain ⟨asked, -, hextended⟩ := hbehaves.of_run hrun
  suffices hagain : ∃ asked', Extended settings task answers t.disk [] s'.disk asked' by
    obtain ⟨asked', hagain⟩ := hagain
    obtain ⟨t', hrun', hdisk', -⟩ := hbehaves.exists_run hagain
    exact ⟨t', hrun', hdisk'⟩
  rw [hdisk]
  generalize s'.disk = after at hextended hu hfree
  cases hextended with
  | @intro _ target found _ _ ht hprepared hf =>
    cases hf with
    | nothing => exact ⟨[], .intro ht hprepared .nothing⟩
    | @handled _ _ job files paths _ hh =>
      have hadds := hh.adds hs.toProper (hprepared.proper hs.toProper hp ht)
      have ht' := ht
      rw [← hu.moduleAt_eq hadds hs.noUp hm] at ht'
      obtain ⟨asked', hagain⟩ := hh.again (hfree target job files ht hprepared) (.refl _) (.refl _)
      exact ⟨asked', .intro ht' (hprepared.again hu hadds hs hm ht) (.handled hagain)⟩

/-! ## Disks without links -/

lemma Path.IsPlain.child {p : Path} (hp : p.IsPlain) {s : String}
    (hs : ".." ∉ (Path.ofString s).names) : (p.child s).IsPlain := by
  unfold Path.child Path.join
  split
  · rename_i habsolute
    exact ⟨habsolute, hs⟩
  · exact ⟨hp.isAbsolute, by simpa using ⟨hp.noUp, hs⟩⟩

/-- **On disks without links**, nothing came into being that is looked at if none of the new places
is that of a marker, and none lies at, above or inside a path of the resource. -/
theorem undisturbed_of_linkFree (hk : before.Extends after) (hl : after.LinkFree)
    (hm : IsRelativeMarker settings.markerFile)
    (hup : ".." ∉ (Path.ofString settings.markerFile).names)
    (hnames : ∀ name, IsStatedName before settings name → ".." ∉ (Path.ofString name).names)
    (hmarkers : ∀ e ∈ after.entries, (Path.ofString settings.markerFile).names <:+ e.1 →
      ∀ q ∈ e.1.inits, before.node? q ≠ none)
    (hresource : ∀ target, moduleAt before settings task.target = .ok target →
      ∀ root ∈ searchedRoots before settings task target.root,
      ∀ p ∈ lookedAt settings root task.type task.name, p.IsPlain ∧
        ∀ e ∈ after.entries, before.node? e.1 = none → ¬ p.names <+: e.1 ∧ ¬ e.1 <+: p.names) :
    Undisturbed settings task before after where
  markers directory hsite hgains := by
    have hplain : directory.IsPlain := by
      rcases hsite with hplain | ⟨name, above, hname, habove, rfl⟩
      · exact hplain
      · exact (habove.child (by decide)).child (hnames name hname)
    obtain ⟨hsome, q, hq, hnew, -⟩ := hgains.exists_new hk hl (hplain.child hup)
    obtain ⟨node, hnode⟩ := Option.isSome_iff_exists.mp hsome
    rw [child_eq hm] at hnode hq
    have hne : directory.names ++ (Path.ofString settings.markerFile).names ≠ [] := fun he => by
      rw [he, List.prefix_nil] at hq
      exact Disk.ne_nil_of_node?_eq_none hnew hq
    exact hmarkers _ (Disk.mem_entries_of_node? hnode hne) (List.suffix_append _ _) q
      ((List.mem_inits _ _).mpr hq) hnew
  resource target ht root hroot p hp names hnoUp hgains := by
    obtain ⟨hplain, hnone⟩ := hresource target ht root hroot p hp
    have hbelow : (Path.mk p.root (p.names ++ names)).IsPlain :=
      ⟨hplain.isAbsolute, by simpa using ⟨hplain.noUp, hnoUp⟩⟩
    obtain ⟨-, q, hq, hnew, hsome⟩ := hgains.exists_new hk hl hbelow
    obtain ⟨node, hnode⟩ := Option.isSome_iff_exists.mp hsome
    obtain ⟨hinside, habove⟩ := hnone _
      (Disk.mem_entries_of_node? hnode (Disk.ne_nil_of_node?_eq_none hnew)) hnew
    rcases List.prefix_or_prefix_of_prefix hq (List.prefix_append p.names names) with h | h
    · exact habove h
    · exact hinside h
  circles p _ hloop := absurd hloop (hl.follow_ne_linkLoop p)

end

/-- The answers of an operator who extends all that is offered, and the styles. -/
def Answers.eager : Answers where
  exports _ offered := .ok offered
  style _ := .ok .extend

lemma Operator.eager_follows : Operator.eager.Follows Answers.eager := ⟨fun _ _ _ => rfl, fun _ _ => rfl⟩

/-- What is read on a disk is the content of one of its files. -/
lemma Disk.mem_of_read {d : Disk} {p : Path} {content : List UInt8} (hl : d.LinkFree)
    (h : d.read p = .ok content) : ∃ place, (place, Node.file content) ∈ d.entries := by
  have hnames : ∀ (enter : Place → List String → Except DiskCause Found) (names : List String)
      (place found : Place),
      d.followNames enter true place names = .ok (.node found (.file content)) →
      (found, Node.file content) ∈ d.entries := by
    intro enter names
    induction names with
    | nil => intro place found h; simp [followNames] at h
    | cons name rest ih =>
      intro place found h
      rw [followNames] at h
      split at h
      · exact ih _ _ h
      · dsimp only at h
        cases hn : d.node? (place ++ [name]) with
        | none => rw [hn] at h; dsimp only at h; split at h <;> cases h
        | some node =>
          rw [hn] at h
          cases node with
          | directory => exact ih _ _ h
          | file held =>
            dsimp only at h
            split at h
            · cases h
              exact Disk.mem_entries_of_node? hn (by simp)
            · cases h
          | link target => exact absurd hn (hl.node?_ne_link _ _)
  unfold read at h
  split at h
  · cases h
  · rename_i place held hfollow
    cases h
    unfold follow at hfollow
    rw [followLinks_eq] at hfollow
    exact ⟨place, hnames _ _ _ _ hfollow⟩
  · cases h
  · cases h

lemma Disk.twoModules_linkFree : Disk.twoModules.LinkFree := by
  intro e he target
  simp only [Disk.twoModules, List.mem_cons, List.not_mem_nil, or_false] at he
  rcases he with rfl | rfl | rfl | rfl | rfl | rfl | rfl | rfl <;> simp

/-- The manifests of the two modules state nothing. -/
lemma Disk.manifest_twoModules {root : Path} {v : Value}
    (h : manifest Disk.twoModules {} root = .ok v) : v = .table [] := by
  unfold manifest readText at h
  cases hread : Disk.twoModules.read (root.child ({} : Settings).markerFile) with
  | error fault => rw [hread] at h; cases h
  | ok content =>
    rw [hread] at h
    obtain ⟨place, hmem⟩ := Disk.mem_of_read Disk.twoModules_linkFree hread
    have hcontent : content = Text.encode "\x7b\x7d" ∨ content = Text.encode "export const a = 1" := by
      simp only [Disk.twoModules, List.mem_cons, List.not_mem_nil, Prod.mk.injEq, reduceCtorEq,
        Node.file.injEq, and_false, or_false, false_or] at hmem
      tauto
    rcases hcontent with rfl | rfl
    · have hread : Text.decode? (Text.encode "\x7b\x7d") = some "\x7b\x7d" := by decide
      have hvalue : Json.read? (String.ofList (Text.unifyLines "\x7b\x7d".toList)) =
          some (.table []) := by rfl
      simp only [hread, hvalue, Except.bind] at h
      cases h
      rfl
    · have hread : Text.decode? (Text.encode "export const a = 1") = some "export const a = 1" := by
        decide
      have hvalue : Json.read? (String.ofList (Text.unifyLines "export const a = 1".toList)) =
          none := by rfl
      simp only [hread, hvalue, Except.bind] at h
      cases h

lemma Disk.twoModules_names (name : String) (h : IsStatedName Disk.twoModules {} name) :
    ".." ∉ (Path.ofString name).names := by
  rcases h with hname | ⟨m, v, hparent, hname⟩
  · obtain rfl : name = "@scandipwa/scandipwa" := by simpa using hname
    decide
  · unfold Module.parent at hparent
    cases hv : manifest Disk.twoModules {} m.root with
    | error f => rw [hv] at hparent; cases hparent
    | ok about =>
      rw [hv, Disk.manifest_twoModules hv] at hparent
      cases hparent
      cases hname

lemma Disk.extendedModules_linkFree : extendedModules.LinkFree := by
  intro e he target
  rcases List.mem_append.mp he with he | he
  · exact Disk.twoModules_linkFree e he target
  · simp only [List.mem_cons, List.not_mem_nil, or_false] at he
    rcases he with rfl | rfl | rfl | rfl | rfl <;> simp

lemma Task.searchedRoots_betweenModules (target : Path) :
    searchedRoots Disk.twoModules {} Task.betweenModules target = [⟨"/", ["b"]⟩] := by
  have hroot : moduleRoot Disk.twoModules "package.json" (.ofString "/b") = .ok ⟨"/", ["b"]⟩ := by
    decide
  simp only [searchedRoots, Task.betweenModules]
  rw [hroot]

lemma Disk.extendedModules_undisturbed (h : Disk.twoModules.Extends extendedModules) :
    Undisturbed {} Task.betweenModules Disk.twoModules extendedModules := by
  have hmarkers : ∀ e ∈ extendedModules.entries, ["package.json"] <:+ e.1 →
      ∀ q ∈ e.1.inits, (Disk.twoModules.node? q).isSome = true := by
    decide
  have hplaces : ∀ e ∈ extendedModules.entries,
      (Disk.twoModules.node? e.1).isSome = true ∨
        ¬ ["b", "src", "component", "X"] <+: e.1 ∧ ¬ e.1 <+: ["b", "src", "component", "X"] := by
    decide
  refine undisturbed_of_linkFree h extendedModules_linkFree (by decide) (by decide)
    Disk.twoModules_names (fun e he hm q hq hnone => ?_) fun target ht root hroot p hp => ?_
  · have hsome := hmarkers e he hm q hq
    rw [hnone] at hsome
    cases hsome
  · rw [Task.searchedRoots_betweenModules, List.mem_singleton] at hroot
    obtain rfl := hroot
    have hp' : p = ⟨"/", ["b", "src", "component", "X"]⟩ := by
      have hlooked : lookedAt {} ⟨"/", ["b"]⟩ .component "X" =
          [⟨"/", ["b", "src", "component", "X"]⟩] := by decide
      rw [← List.mem_singleton, ← hlooked]
      exact hp
    subst hp'
    refine ⟨⟨by decide, by decide⟩, fun e he hnone => ?_⟩
    rcases hplaces e he with hsome | hapart
    · rw [hnone] at hsome
      cases hsome
    · exact hapart

lemma Disk.twoModules_sound : Disk.twoModules.Sound where
  here := by simp [Disk.twoModules]
  links place target h := absurd h (Disk.twoModules_linkFree.node?_ne_link place target)
  entries := by
    unfold Path.IsName
    decide
  noUp := by decide

lemma Task.prepared_betweenModules : Prepared {} Task.betweenModules
    ⟨⟨"/", ["t"]⟩, .text "t", .text "theme", .null⟩ Disk.twoModules
    (some (⟨Task.betweenModules, {}, ⟨"/", ["b", "src", "component", "X"]⟩,
      ⟨⟨"/", ["b"]⟩, .text "b", .text "theme", .null⟩, ⟨"/", ["t", "src", "component", "X"]⟩⟩,
      ["X.component.js"])) := by
  have hlocate : (locate Disk.twoModules {} .component "X" ⟨"/", ["t"]⟩
      (some (.ofString "/b"))).2 = .ok ⟨"/", ["b", "src", "component", "X"]⟩ := by decide
  have hsource : moduleAt Disk.twoModules {} ⟨"/", ["b", "src", "component", "X"]⟩ =
      .ok ⟨⟨"/", ["b"]⟩, .text "b", .text "theme", .null⟩ := by rfl
  have hcan : canExtend Disk.twoModules ⟨"/", ["b", "src", "component", "X"]⟩ ⟨"/", ["b"]⟩
      ⟨"/", ["t"]⟩ .component "X" = .ok ([], true) := by decide
  have hfiles : fileList Disk.twoModules {} .component "X"
      ⟨"/", ["b", "src", "component", "X"]⟩ = .ok ["X.component.js"] :=
    fileList_of_pairwise (by decide) (by decide) (List.pairwise_singleton _ _)
  have hdirectory : targetDirectory Disk.twoModules ⟨"", ["src", "component", "X"]⟩
      ⟨"/", ["t"]⟩ false (.text "b") = .ok ⟨"/", ["t", "src", "component", "X"]⟩ := by
    decide
  exact .found hlocate hsource hcan hfiles hdirectory

lemma Task.unhindered_betweenModules {target : Module} {job : Job} {files : List String}
    (ht : moduleAt Disk.twoModules {} Task.betweenModules.target = .ok target)
    (hp : Prepared {} Task.betweenModules target Disk.twoModules (some (job, files))) :
    job.Unhindered files Disk.twoModules Disk.extendedModules := by
  have htarget : moduleAt Disk.twoModules {} Task.betweenModules.target =
      .ok ⟨⟨"/", ["t"]⟩, .text "t", .text "theme", .null⟩ := by rfl
  obtain rfl := Except.ok.inj (htarget.symm.trans ht)
  obtain ⟨rfl, rfl⟩ := Prod.mk.inj (Option.some.inj (prepared_betweenModules.unique hp))
  have hopen : Disk.extendedModules.IsOpen ["t", "src", "component", "X"] := by
    have hdirectories : ∀ above ∈ ["t", "src", "component", "X"].inits,
        Disk.extendedModules.node? above = some .directory := by
      decide
    exact ⟨by decide, fun above ha => hdirectories above ((List.mem_inits _ _).mpr ha)⟩
  intro fileName hf p hp d _ hd
  rw [List.mem_singleton] at hf
  subst hf
  have hparent : p.parent = ⟨"/", ["t", "src", "component", "X"]⟩ := by
    clear htarget ht
    revert p
    decide
  rw [hparent]
  exact not_isRefused_of_isOpen hopen hd

theorem extend_again_twoModules : ∃ s' : Scene Unit,
    extend Operator.eager (fun _ _ _ => {}) {} Task.betweenModules ⟨Disk.twoModules, (), []⟩ =
      (.ok ["/t/src/component/X/X.style.scss", "/t/src/component/X/X.component.js"], s') ∧
    Undisturbed {} Task.betweenModules Disk.twoModules s'.disk ∧
    ∃ t', extend Operator.eager (fun _ _ _ => {}) {} Task.betweenModules ⟨s'.disk, (), []⟩ =
      (.ok [], t') ∧ t'.disk = s'.disk := by
  obtain ⟨s', hrun, hs'⟩ := extend_twoModules
  obtain ⟨asked, -, hextended⟩ := (extend_behaves Operator.eager_follows (fun _ _ _ => {}) {}
    Task.betweenModules).of_run hrun
  have hk : Disk.twoModules.Extends Disk.extendedModules := hs' ▸ hextended.extension
  have hu : Undisturbed {} Task.betweenModules Disk.twoModules s'.disk :=
    hs' ▸ Disk.extendedModules_undisturbed hk
  exact ⟨s', hrun, hu, extend_again Operator.eager_follows _ hrun Disk.twoModules_sound
    (Path.proper_ofString "/t") (by decide) hu
    (fun _ _ _ ht hp => hs' ▸ Task.unhindered_betweenModules ht hp) _ rfl⟩

/-! ## A directory that is refused -/

/-- Two modules, one of which has a component with two files. In the other the directory for the
styles of its override is a link to a file that is missing. -/
def Disk.linkedStyles : Disk where
  entries :=
    [(["t"], .directory), (["t", "package.json"], .file (Text.encode "\x7b\x7d")),
     (["t", "src"], .directory), (["t", "src", "component"], .directory),
     (["t", "src", "component", "X"], .directory),
     (["t", "src", "component", "X", "X"], .link (.ofString "X.config.js")),
     (["b"], .directory), (["b", "package.json"], .file (Text.encode "\x7b\x7d")),
     (["b", "src"], .directory), (["b", "src", "component"], .directory),
     (["b", "src", "component", "X"], .directory),
     (["b", "src", "component", "X", "X.component.js"],
       .file (Text.encode "export const a = 1;")),
     (["b", "src", "component", "X", "X.config.js"],
       .file (Text.encode "export const a = 1;"))]

/-- Styles lie in a directory that is named for the resource. -/
def Settings.nestedStyles : Settings := { styleExtension := "/styles/index.scss" }

/-- The answers of an operator who extends one source file, and the styles. -/
def Answers.only (fileName : String) : Answers where
  exports prompt offered :=
    .ok (if prompt == Console.exportPrompt fileName then offered else [])
  style _ := .ok .extend

/-- An operator who gives answers that depend on the question alone. -/
def Answers.operator (answers : Answers) : Operator Unit where
  exports prompt offered s := (answers.exports prompt offered, s)
  style prompt s := (answers.style prompt, s)

lemma Answers.operator_follows (answers : Answers) : answers.operator.Follows answers :=
  ⟨fun _ _ _ => rfl, fun _ _ => rfl⟩


/-- The override of a file of the component. -/
def Job.linkedStyles : Job where
  task := Task.betweenModules
  settings := .nestedStyles
  resource := ⟨"/", ["b", "src", "component", "X"]⟩
  sourceModule := ⟨⟨"/", ["b"]⟩, .text "b", .text "theme", .null⟩
  directory := ⟨"/", ["t", "src", "component", "X"]⟩

/-- The disk with the override of the configuration. -/
def Disk.linkedStylesConfigured : Disk where
  entries := Disk.linkedStyles.entries ++
    [(["t", "src", "component", "X", "X.config.js"], .file (Text.encode
      ("import \x7b a as sourceA \x7d from 'b/src/component/X/X.config';\n\n" ++
        "export const a = sourceA;\n")))]

set_option maxRecDepth 10000 in
/-- The first time, the configuration is written, and nothing else. -/
lemma Job.handleAll_linkedStyles : ∃ s : Scene Unit,
    Job.linkedStyles.handleAll (Answers.only "X.config.js").operator ["X.component.js", "X.config.js"]
      ⟨Disk.linkedStyles, (), []⟩ =
        (.ok [⟨"/", ["t", "src", "component", "X", "X.config.js"]⟩], s) ∧
      s.disk = Disk.linkedStylesConfigured := by
  generalize hrun : Job.linkedStyles.handleAll (Answers.only "X.config.js").operator
    ["X.component.js", "X.config.js"] ⟨Disk.linkedStyles, (), []⟩ = run
  obtain ⟨hresult, hentries, hhere⟩ :
      run.1 = .ok [⟨"/", ["t", "src", "component", "X", "X.config.js"]⟩] ∧
      run.2.disk.entries = Disk.linkedStylesConfigured.entries ∧
      run.2.disk.here = Disk.linkedStylesConfigured.here := by
    rw [← hrun]
    -- the characters are spelled out, as they take long to compute from a long text
    unfold Disk.linkedStylesConfigured Text.encode
    simp only [String.toList_append]
    rewrite [String.toList_ofList, String.toList_ofList]
    decide +kernel
  obtain ⟨result, ⟨⟨entries, here⟩, o, events⟩⟩ := run
  obtain rfl : result = _ := hresult
  obtain rfl : entries = _ := hentries
  obtain rfl : here = _ := hhere
  exact ⟨_, rfl, rfl⟩

set_option maxRecDepth 10000 in
/-- The second time, there is no directory for the styles. -/
lemma Job.handleAll_linkedStyles_again (created : List Path) (s : Scene Unit) :
    Job.linkedStyles.handleAll (Answers.only "X.config.js").operator ["X.component.js", "X.config.js"]
      ⟨Disk.linkedStylesConfigured, (), []⟩ ≠ (.ok created, s) := by
  have hfails : (Job.linkedStyles.handleAll (Answers.only "X.config.js").operator
      ["X.component.js", "X.config.js"] ⟨Disk.linkedStylesConfigured, (), []⟩).1.toOption =
        none := by decide +kernel
  intro hok
  rw [hok] at hfails
  cases hfails

lemma Disk.fileList_linkedStyles {d : Disk}
    (hd : d ∈ [Disk.linkedStyles, Disk.linkedStylesConfigured]) :
    fileList d .nestedStyles .component "X" ⟨"/", ["b", "src", "component", "X"]⟩ =
      .ok ["X.component.js", "X.config.js"] := by
  refine fileList_of_pairwise (by decide) ?_ (by decide)
  revert d
  decide

lemma Task.moduleAt_linkedStyles {d : Disk}
    (hd : d ∈ [Disk.linkedStyles, Disk.linkedStylesConfigured]) :
    moduleAt d .nestedStyles Task.betweenModules.target =
      .ok ⟨⟨"/", ["t"]⟩, .text "t", .text "theme", .null⟩ := by
  simp only [List.mem_cons, List.not_mem_nil, or_false] at hd
  rcases hd with rfl | rfl
  · rfl
  · rfl

lemma Task.prepared_linkedStyles {d : Disk}
    (hd : d ∈ [Disk.linkedStyles, Disk.linkedStylesConfigured]) :
    Prepared .nestedStyles Task.betweenModules ⟨⟨"/", ["t"]⟩, .text "t", .text "theme", .null⟩ d
      (some (Job.linkedStyles, ["X.component.js", "X.config.js"])) := by
  have hresolve : resolvePath d ⟨"/", ["t"]⟩ = .ok ⟨"/", ["t"]⟩ := by
    revert d
    decide
  have hcan : canExtend d ⟨"/", ["b", "src", "component", "X"]⟩ ⟨"/", ["b"]⟩ ⟨"/", ["t"]⟩
      .component "X" = .ok ([], true) := by
    clear hresolve
    revert d
    decide
  have hlocate : (locate d .nestedStyles .component "X" ⟨"/", ["t"]⟩ (some (.ofString "/b"))).2 =
      .ok ⟨"/", ["b", "src", "component", "X"]⟩ := by
    clear hresolve hcan
    revert d
    decide
  have hsource : moduleAt d .nestedStyles ⟨"/", ["b", "src", "component", "X"]⟩ =
      .ok ⟨⟨"/", ["b"]⟩, .text "b", .text "theme", .null⟩ := by
    simp only [List.mem_cons, List.not_mem_nil, or_false] at hd
    rcases hd with rfl | rfl
    · rfl
    · rfl
  have hdirectory : ∀ name, targetDirectory d ⟨"", ["src", "component", "X"]⟩ ⟨"/", ["t"]⟩ false name =
      .ok ⟨"/", ["t", "src", "component", "X"]⟩ := by
    intro name
    unfold targetDirectory
    rw [hresolve]
    rfl
  exact .found hlocate hsource hcan (Disk.fileList_linkedStyles hd) (hdirectory _)

/-- **The second of two runs can fail.** The first is refused the directory for the styles, as a
link lies there that leads nowhere, and goes on. It creates the file that the link leads to, and
that this is no directory is an error in the second. -/
theorem extend_again_linkedStyles : ∃ s' : Scene Unit,
    extend (Answers.only "X.config.js").operator (fun _ _ _ => {}) .nestedStyles Task.betweenModules
      ⟨Disk.linkedStyles, (), []⟩ = (.ok ["/t/src/component/X/X.config.js"], s') ∧
    (searchedRoots Disk.linkedStyles .nestedStyles Task.betweenModules ⟨"/", ["t"]⟩).flatMap
      (fun root => lookedAt .nestedStyles root .component "X") =
        [⟨"/", ["b", "src", "component", "X"]⟩] ∧
    ∀ created t', extend (Answers.only "X.config.js").operator (fun _ _ _ => {}) .nestedStyles
      Task.betweenModules ⟨s'.disk, (), []⟩ ≠ (.ok created, t') := by
  have hop := (Answers.only "X.config.js").operator_follows
  have hhandles := Job.linkedStyles.handleAll_behaves hop ["X.component.js", "X.config.js"]
  have hlater : Disk.linkedStylesConfigured ∈
    [Disk.linkedStyles, Disk.linkedStylesConfigured] := by simp
  obtain ⟨s, hfirst, hs⟩ := Job.handleAll_linkedStyles
  obtain ⟨s', hrun, hs', -⟩ := exists_extend hop (fun _ _ _ => {})
    (Task.moduleAt_linkedStyles List.mem_cons_self) (Task.prepared_linkedStyles List.mem_cons_self)
    (congrArg Prod.fst hfirst)
  rw [hfirst] at hs'
  refine ⟨s', hrun, by decide, fun created t' hagain => ?_⟩
  obtain ⟨asked', -, hextended⟩ := (extend_behaves hop (fun _ _ _ => {}) .nestedStyles
    Task.betweenModules).of_run hagain
  dsimp only at hextended
  rw [hs', hs] at hextended
  generalize t'.disk = after at hextended
  cases hextended with
  | @intro _ target found _ _ ht hp hf =>
    obtain rfl := Except.ok.inj ((Task.moduleAt_linkedStyles hlater).symm.trans ht)
    obtain rfl := (Task.prepared_linkedStyles hlater).unique hp
    cases hf with
    | handled hh =>
      obtain ⟨t, hrun', -⟩ := hhandles.exists_run (s := ⟨Disk.linkedStylesConfigured, (), []⟩) hh
      exact Job.handleAll_linkedStyles_again _ _ hrun'

end ThemeOverride
