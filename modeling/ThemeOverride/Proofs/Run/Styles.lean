import ThemeOverride.Proofs.Output.OneName
import ThemeOverride.Proofs.Override.CopiedNames
import ThemeOverride.Proofs.Override.StyleImports
import ThemeOverride.Proofs.Run.Inside

/-!
# Styles that belong to overrides

What is answered and written for a source file makes an episode of a run. An override that is new in
an episode imports styles as the answer in the same episode says. The style file is written before
it, under a name that the settings decide on, while the import names it in a fixed way; so the two
go together as far as the settings allow.

## Main definitions

* `ThemeOverride.Episode` — what is answered and written for a source file.
* `ThemeOverride.Job.moments` — an episode as a part of a transcript.
* `ThemeOverride.Job.ImportsAsAnswered` — the styles that a new override imports.
* `ThemeOverride.Job.HasStyleFile` — a style file that was found or written.
* `ThemeOverride.CouplesStyles` — what is told of styles by a run that gives a result.

## Main results

* `ThemeOverride.Job.ToldAll.exists_episodes` — source files that are handled have their episodes.
* `ThemeOverride.extend_styles` — a run couples styles.
* `ThemeOverride.extend_styles_renamed` — an override that imports styles under a name that no file
  begins with.
-/

namespace ThemeOverride

variable {σ : Type}

/-! ## Episodes -/

/-- What is answered and written for a source file: the exports that are offered and the answer, the
answer about styles, and the texts of the style file and the override that are new. -/
structure Episode where
  fileName : String
  answer? : Option (List ExportRecord × List ExportRecord) := none
  style? : Option StyleOption := none
  styleFile? : Option String := none
  override? : Option String := none

namespace Job

section

variable (job : Job) (before after : Disk) (e : Episode)

/-- What happens in an episode, in this order. -/
def moments : List Moment :=
  e.answer?.toList.map (fun a => .exports (Console.exportPrompt e.fileName) a.1 (.ok a.2)) ++
    (e.style?.toList.map (fun option => .style Console.stylePrompt (.ok option)) ++
      (e.styleFile?.toList.map
          (.wrote (stylePath job.settings job.directory job.task.name) ·) ++
        e.override?.toList.map (.wrote (job.targetPath e.fileName) ·)))

/-- **The styles that a new override imports are those that are asked for in its episode.** The
override is made from what its source file holds and from the answers in the episode, and the copied
imports among its own each bind a name that the default export refers to. -/
def ImportsAsAnswered (text : String) : Prop :=
  ∃ code answer, readText before (job.sourcePath e.fileName) = .ok code ∧
    let source := job.reading e.fileName code
    let plan := job.plan e.fileName source (chosenAmong source.exports.named answer) e.style?
    e.answer? = some (source.exports.named, answer) ∧ plan.ImportsStyles text plan.imports ∧
      ∀ statement ∈ plan.copiedImports, ∃ r ∈ source.exports.imports,
        r.IsCopied source.exports.names source.references job.task.isTypescript ∧
        r.Copies source.code.toList source.exports.names
          (moduleImportDirectory job.sourceModule.name.shown
            (job.task.type.directory job.task.name)) statement

/-- The writes of an episode, if it has an override and its styles are not kept: the style file is
tried first, and the override is new thereafter. -/
def Writes : Prop :=
  ∀ text option style, e.override? = some text → e.style? = some option →
    option.render? job.task.name = some style →
    ∃ between isNew,
      writeNew before (stylePath job.settings job.directory job.task.name) style =
        (between, .ok isNew) ∧
      writeNew between (job.targetPath e.fileName) text = (after, .ok true)

/-- **An episode goes from one disk to another**: a style file that is new has the text that is
asked for, and an override imports the styles that are. -/
structure Goes : Prop where
  style_iff : e.style?.isSome = true ↔
    e.answer?.isSome = true ∧ job.task.type.carriesStyles e.fileName = true
  styleFile : ∀ style, e.styleFile? = some style →
    ∃ option, e.style? = some option ∧ option.render? job.task.name = some style
  override : ∀ text, e.override? = some text → job.ImportsAsAnswered before e text
  writes : job.Writes before after e

end

section

variable {job : Job} {fileName : String} {d d' : Disk} {transcript : List Moment}

/-- What is written, as a part of an episode. -/
lemma ofWrite_eq (p : Path) (text : String) (written : Except Failure Bool) :
    ∃ text?, Moment.ofWrite p text written = text?.toList.map (.wrote p ·) ∧
      (∀ other, text? = some other → other = text ∧ written = .ok true) ∧
      (written = .ok true → text? = some text) := by
  unfold Moment.ofWrite
  split
  · exact ⟨some text, rfl, fun other h => ⟨(Option.some.inj h).symm, rfl⟩, fun _ => rfl⟩
  · rename_i hnot
    exact ⟨none, rfl, nofun, fun h => absurd h hnot⟩

/-- What is told of styles, as a part of an episode. -/
lemma ToldStyle.exists_parts {style : Option StyleOption} {styles : List Path}
    {styling : List Moment} (h : ToldStyle job fileName d (.ok (style, styles)) d' styling) :
    ∃ styleFile?,
      styling = style.toList.map (fun option => .style Console.stylePrompt (.ok option)) ++
        styleFile?.toList.map (.wrote (stylePath job.settings job.directory job.task.name) ·) ∧
      styles = writtenIn styling ∧
      (style.isSome = true ↔ job.task.type.carriesStyles fileName = true) ∧
      (∀ text, styleFile? = some text →
        ∃ option, style = some option ∧ option.render? job.task.name = some text) ∧
      ∀ option text, style = some option → option.render? job.task.name = some text →
        ∃ isNew, writeNew d (stylePath job.settings job.directory job.task.name) text =
          (d', .ok isNew) := by
  generalize hresult : (Except.ok (style, styles) : Except Failure _) = result at h
  cases h with
  | none hcarries =>
    cases hresult
    exact ⟨Option.none, rfl, rfl, by simp [hcarries], nofun, nofun⟩
  | unanswered => cases hresult
  | keep hcarries =>
    cases hresult
    refine ⟨Option.none, rfl, rfl, by simp [hcarries], nofun, fun option text ho ht => ?_⟩
    rw [← Option.some.inj ho] at ht
    cases ht
  | @file _ _ option text written hcarries ht hw =>
    obtain ⟨styleFile?, hwrite, hnew, -⟩ :=
      ofWrite_eq (stylePath job.settings job.directory job.task.name) text written
    cases written with
    | error f => cases hresult
    | ok isNew =>
      cases hresult
      refine ⟨styleFile?, by rw [hwrite]; rfl, ?_, by simp [hcarries], fun other ho => ?_,
        fun other style ho hs => ?_⟩
      · have hwritten := Moment.written?_ofWrite
          (stylePath job.settings job.directory job.task.name) text (.ok isNew)
        rw [writtenIn, List.filterMap_cons_none rfl, hwritten]
        cases isNew <;> rfl
      · exact ⟨option, rfl, by rw [(hnew other ho).1, ht]⟩
      · rw [← Option.some.inj ho, ht, Option.some.injEq] at hs
        exact ⟨isNew, by rw [← hs, hw]⟩

/-- The text of an override imports the styles that are asked for. -/
lemma importsAsAnswered_of_synthesize {e : Episode} {code text : String}
    {answer : List ExportRecord}
    (hr : readText d (job.sourcePath e.fileName) = .ok code)
    (ha : e.answer? = some ((job.reading e.fileName code).exports.named, answer))
    (hc : chosenAmong (job.reading e.fileName code).exports.named answer ≠ [])
    (h : synthesize (job.plan e.fileName (job.reading e.fileName code)
      (chosenAmong (job.reading e.fileName code).exports.named answer) e.style?) = .ok text) :
    job.ImportsAsAnswered d e text := by
  refine ⟨code, answer, hr, ha, ?_, fun statement hs => ?_⟩
  · obtain ⟨r, hr⟩ := List.exists_mem_of_ne_nil _ hc
    rw [← (synthesize_eq_ok_iff.mp h).1]
    exact OverridePlan.importsStyles_text ⟨r, (List.mem_filter.mp hr).1, r, hr, rfl⟩
  · obtain ⟨r, hr, hcopied⟩ := List.mem_filterMap.mp hs
    refine ⟨r, hr, ?_, r.copies_of_copied? _ hcopied⟩
    exact (r.copied?_isSome _ _ _ _ _).mp (Option.isSome_iff_exists.mpr ⟨_, hcopied⟩)

/-- **A source file that is handled has its episode.** -/
theorem Told.exists_episode {created : List Path}
    (h : Told job fileName d (.ok created) d' transcript) :
    ∃ e : Episode, e.fileName = fileName ∧ transcript = job.moments e ∧
      created = writtenIn transcript ∧ job.Goes d d' e := by
  generalize hresult : (Except.ok created : Except Failure _) = result at h
  have hnone : job.Goes d d' ⟨fileName, none, none, none, none⟩ :=
    ⟨by simp, nofun, nofun, nofun⟩
  cases h with
  | skipped | present | bare =>
    cases hresult
    exact ⟨_, rfl, rfl, rfl, hnone⟩
  | unread => cases hresult
  | @overridden _ _ code _ _ _ _ hr _ ho =>
    cases ho with
    | unanswered | stopped => cases hresult
    | @nothing _ _ answer style styles styling hs hc =>
      cases hresult
      obtain ⟨styleFile?, hstyling, hstyles, hsome, hfile, -⟩ := hs.exists_parts
      refine ⟨⟨fileName, some ((job.reading fileName code).exports.named, answer), style,
        styleFile?, none⟩, rfl, ?_, hstyles, by simpa using hsome, hfile, nofun, nofun⟩
      rw [hstyling]
      simp [moments]
    | @chosen _ d₁ _ answer style styles styling writing result hs hc hw =>
      obtain ⟨styleFile?, hstyling, hstyles, hsome, hfile, hwrites⟩ := hs.exists_parts
      obtain ⟨override?, hwriting, hcreated, hoverride⟩ : ∃ override? : Option String,
          writing = override?.toList.map (.wrote (job.targetPath fileName) ·) ∧
          (∀ more, result = .ok more → more = writtenIn writing) ∧
          ∀ text, override? = some text →
            synthesize (job.plan fileName (job.reading fileName code)
              (chosenAmong (job.reading fileName code).exports.named answer) style) = .ok text ∧
            writeNew d₁ (job.targetPath fileName) text = (d', .ok true) := by
        cases hw with
        | failed => exact ⟨none, rfl, fun more h => by cases h; rfl, nofun⟩
        | @tried _ _ text written ht hw =>
          obtain ⟨override?, hwrite, hnew, -⟩ := ofWrite_eq (job.targetPath fileName) text written
          refine ⟨override?, hwrite, fun more h => ?_, fun other ho => ?_⟩
          · rw [writtenIn, Moment.written?_ofWrite]
            cases written with
            | error f => cases h
            | ok isNew =>
              cases h
              cases isNew <;> rfl
          · obtain ⟨rfl, hwritten⟩ := hnew other ho
            exact ⟨ht, by rw [hw, hwritten]⟩
      refine ⟨⟨fileName, some ((job.reading fileName code).exports.named, answer), style,
        styleFile?, override?⟩, rfl, ?_, ?_, ?_⟩
      · rw [hstyling, hwriting]
        simp [moments]
      · cases result with
        | error f => cases hresult
        | ok more =>
          cases hresult
          rw [hstyles, hcreated more rfl]
          exact List.filterMap_append.symm
      · refine ⟨by simpa using hsome, hfile, fun text ht => ?_,
          fun text option style' ht ho hr => ?_⟩
        · exact importsAsAnswered_of_synthesize hr rfl hc (hoverride text ht).1
        · obtain ⟨isNew, hstyle⟩ := hwrites option style' ho hr
          exact ⟨d₁, isNew, hstyle, (hoverride text ht).2⟩

/-- **Source files that are handled have their episodes**, one after the other. What holds before
the run and is kept by every write holds before each of them. -/
theorem ToldAll.exists_episodes {files : List String} {created : List Path}
    (h : ToldAll job files d (.ok created) d' transcript) (inv : Disk → Prop)
    (hinv : ∀ f ∈ files, ∀ p ∈ job.outputs f, ∀ d text, inv d → inv (writeNew d p text).1)
    (hd : inv d) :
    ∃ episodes : List Episode, episodes.map (·.fileName) = files ∧
      transcript = episodes.flatMap job.moments ∧ created = writtenIn transcript ∧
      ∀ e ∈ episodes, ∃ before after, inv before ∧ d.Extends before ∧ job.Goes before after e ∧
        after.Extends d' := by
  generalize hresult : (Except.ok created : Except Failure _) = result at h
  induction h generalizing created with
  | nil =>
    cases hresult
    exact ⟨[], rfl, rfl, rfl, nofun⟩
  | stopped => cases hresult
  | @cons fileName rest d d₁ d' first result transcript later h hrest ih =>
    cases result with
    | error f => cases hresult
    | ok more =>
      cases hresult
      obtain ⟨e, rfl, hmoments, hfirst, hgoes⟩ := h.exists_episode
      have hd₁ : inv d₁ := h.preserves (fun d d' => inv d → inv d') (fun _ h => h)
        (fun h h' hd => h' (h hd)) (hinv _ List.mem_cons_self) hd
      obtain ⟨episodes, hfiles, hlater, hmore, hall⟩ :=
        ih (fun f hf => hinv f (List.mem_cons_of_mem _ hf)) hd₁ rfl
      have hkeeps : d.Extends d₁ := h.records.grows.keeps
      refine ⟨e :: episodes, by rw [List.map_cons, hfiles], ?_, ?_, fun other ho => ?_⟩
      · rw [hmoments, hlater, List.flatMap_cons]
      · rw [hfirst, hmore]
        exact List.filterMap_append.symm
      · rcases List.mem_cons.mp ho with rfl | ho
        · exact ⟨d, d₁, hd, .refl d, hgoes, hrest.records.grows.keeps⟩
        · obtain ⟨before, after, hbefore, hk, hgoes, hk'⟩ := hall other ho
          exact ⟨before, after, hbefore, hkeeps.trans hk, hgoes, hk'⟩

end

end Job

/-! ## The whole run -/

namespace Job

section

variable (job : Job) (before after : Disk) (transcript : List Moment) (e : Episode)

/-- **There is a style file in the directory of the override**: it was on the disk before, or is
written in the run; if it is new in an episode, it has the text that is asked for. -/
def HasStyleFile : Prop :=
  ∃ place content,
    after.follow true ⟨job.directory.root, job.directory.names ++ [job.styleName]⟩ =
      .ok (.node place (.file content)) ∧
    (∀ style, e.styleFile? = some style → content = Text.encode style) ∧
    (before.node? place = some (.file content) ∨
      ∃ p text, .wrote p text ∈ transcript ∧ content = Text.encode text ∧
        after.follow true p = .ok (.node place (.file content)))

end

section

variable {job : Job} {before after : Disk} {transcript : List Moment} {e : Episode}

lemma moments_subset {episodes : List Episode} (he : e ∈ episodes) :
    job.moments e ⊆ episodes.flatMap job.moments :=
  fun _ hm => List.mem_flatMap.mpr ⟨e, he, hm⟩

/-- The files that are new in an episode. -/
lemma writtenIn_moments (job : Job) (e : Episode) : writtenIn (job.moments e) =
    e.styleFile?.toList.map (fun _ => stylePath job.settings job.directory job.task.name) ++
      e.override?.toList.map (fun _ => job.targetPath e.fileName) := by
  unfold writtenIn moments
  cases e.answer? <;> cases e.style? <;> cases e.styleFile? <;> cases e.override? <;> rfl

/-- A file that lies under the name of the style file in the end was found or written. -/
lemma hasStyleFile_of_isFile (h : Records transcript before after)
    (hname : Path.IsName job.styleName) (hsub : job.moments e ⊆ transcript)
    (hfile : after.isFile ⟨job.directory.root, job.directory.names ++ [job.styleName]⟩ = true) :
    job.HasStyleFile before after transcript e := by
  have hpath : stylePath job.settings job.directory job.task.name =
      ⟨job.directory.root, job.directory.names ++ [job.styleName]⟩ := Path.child_of_isName hname _
  obtain ⟨place, content, hfollow⟩ : ∃ place content,
      after.follow true ⟨job.directory.root, job.directory.names ++ [job.styleName]⟩ =
        .ok (.node place (.file content)) := by
    unfold Disk.isFile at hfile
    split at hfile
    · rename_i content hnode
      unfold Disk.nodeAt? at hnode
      split at hnode
      · rename_i place node hfollow
        cases hnode
        exact ⟨place, content, hfollow⟩
      · cases hnode
    · cases hfile
  refine ⟨place, content, hfollow, fun style hs => ?_, ?_⟩
  · have hwrote : .wrote (stylePath job.settings job.directory job.task.name) style ∈ transcript :=
      hsub (by simp [moments, hs])
    obtain ⟨place', hfollow', -⟩ := h.holds _ _ hwrote
    rw [hpath, hfollow] at hfollow'
    cases hfollow'
    rfl
  · have hnode := Disk.node?_of_follow_file hfollow
    rcases h.grows.keeps.eq_none_or_eq hnode with hnew | hold
    · obtain ⟨p, text, hwrote, hcontent, hfollow', -⟩ := h.exists_wrote hnode hnew
      exact .inr ⟨p, text, hwrote, hcontent, hfollow'⟩
    · exact .inl hold

/-- The name of a style file begins as the import of it does exactly if the extension does. -/
lemma styleName_iff (job : Job) :
    (job.task.name ++ ".style").toList <+: job.styleName.toList ↔
      ".style".toList <+: job.settings.styleExtension.toList := by
  unfold styleName
  rw [String.toList_append, String.toList_append, List.prefix_append_right_inj]

/-- The style file is named by one name, which does not lead up. -/
lemma isName_styleName (hname : '/' ∉ job.task.name.toList)
    (hslash : '/' ∉ job.settings.styleExtension.toList)
    (hext : ".style".toList <+: job.settings.styleExtension.toList) :
    Path.IsName job.styleName ∧ job.styleName ≠ ".." := by
  have hlength : 6 ≤ job.styleName.toList.length := by
    have hle := hext.length_le
    unfold styleName
    rw [String.toList_append, List.length_append]
    have hsix : ".style".toList.length = 6 := by decide
    omega
  have hne : ∀ s : String, s.toList.length < 6 → job.styleName ≠ s := by
    rintro s hs rfl
    omega
  refine ⟨⟨hne "" (by decide), hne "." (by decide), ?_⟩, hne ".." (by decide)⟩
  unfold styleName
  rw [String.toList_append, List.mem_append]
  exact fun hmem => hmem.elim hname hslash

end

end Job

/-- **A run couples styles.** Its source files have their episodes, with the answers that the
operator gives and the files that are new. The overrides import styles as is answered in their
episodes. Where the extension for styles begins as the imports do and names no directory, and
nothing but a file lies in the place of the style file, there is a style file for every override
that imports it. -/
structure CouplesStyles (op : Operator σ) (job : Job) (files : List String) (s s' : Scene σ)
    (created : List String) (episodes : List Episode) : Prop where
  files_eq : episodes.map (·.fileName) = files
  gives : op.Gives (episodes.flatMap job.moments) s.operator s'.operator
  questions_eq :
    Run.questions s' = Run.questions s ++ questionsIn (episodes.flatMap job.moments)
  created_eq : created = (writtenIn (episodes.flatMap job.moments)).map Path.toString
  style_iff : ∀ e ∈ episodes, e.style?.isSome = true ↔
    e.answer?.isSome = true ∧ job.task.type.carriesStyles e.fileName = true
  styleFile : ∀ e ∈ episodes, ∀ style, e.styleFile? = some style →
    ∃ option, e.style? = some option ∧ option.render? job.task.name = some style
  imports : ∀ e ∈ episodes, ∀ text, e.override? = some text →
    job.ImportsAsAnswered s.disk e text
  name_iff : (job.task.name ++ ".style").toList <+: job.styleName.toList ↔
    ".style".toList <+: job.settings.styleExtension.toList
  file : '/' ∉ job.settings.styleExtension.toList →
    ".style".toList <+: job.settings.styleExtension.toList →
    s.disk.FileOrNothing ⟨job.directory.root, job.directory.names ++ [job.styleName]⟩ →
    ∀ e ∈ episodes, e.override?.isSome = true →
      e.style? = some .extend ∨ e.style? = some .override →
      job.HasStyleFile s.disk s'.disk (episodes.flatMap job.moments) e

section

variable {settings : Settings} {task : Task} {target : Module} {d d' : Disk} {job : Job}
  {files : List String} {fileName : String} {transcript : List Moment}

/-- Each output for a source file has a name in the directory of the override. -/
lemma Prepared.exists_output_name (h : Prepared settings task target d (some (job, files)))
    (hs : d.Sound) (hstyle : Path.IsName job.styleName ∧ job.styleName ≠ "..")
    (hf : fileName ∈ files) {p : Path} (hp : p ∈ job.outputs fileName) :
    ∃ name, name ≠ ".." ∧ p = ⟨job.directory.root, job.directory.names ++ [name]⟩ := by
  rcases List.mem_append.mp hp with hp | hp
  · unfold Job.styleOutputs at hp
    split at hp
    · obtain rfl := List.mem_singleton.mp hp
      exact ⟨job.styleName, hstyle.2, Path.child_of_isName hstyle.1 _⟩
    · cases hp
  · obtain rfl := List.mem_singleton.mp hp
    obtain ⟨hname, hup⟩ := h.isName_targetName hs hf
    exact ⟨job.targetName fileName, hup, job.targetPath_eq hname⟩

/-- A resource of which a file carries styles has a name without a slash. -/
lemma Prepared.notMem_name_of_carriesStyles
    (h : Prepared settings task target d (some (job, files))) (hs : d.Sound) (hf : fileName ∈ files)
    (hcarries : job.task.type.carriesStyles fileName = true) : '/' ∉ job.task.name.toList := by
  obtain ⟨htask, -⟩ := h.task_eq
  rw [htask] at hcarries ⊢
  refine h.notMem_name hs (fun htype => ?_) hf
  rw [htype] at hcarries
  cases hcarries

/-- Where an override is new and its styles are not kept, a file lies in the place of theirs. -/
lemma Job.Goes.isFile {before after : Disk} {e : Episode} (h : job.Goes before after e)
    (hstyle : Path.IsName job.styleName ∧ job.styleName ≠ "..")
    (htarget : Path.IsName (job.targetName e.fileName))
    (hawaits : Disk.Awaits job.directory job.styleName d before)
    (hfree : d.FileOrNothing ⟨job.directory.root, job.directory.names ++ [job.styleName]⟩)
    (hoverride : e.override?.isSome = true)
    (hoption : e.style? = some .extend ∨ e.style? = some .override) :
    after.isFile ⟨job.directory.root, job.directory.names ++ [job.styleName]⟩ = true := by
  obtain ⟨text, htext⟩ := Option.isSome_iff_exists.mp hoverride
  obtain ⟨option, style, ho, hr⟩ : ∃ option style, e.style? = some option ∧
      option.render? job.task.name = some style := by
    rcases hoption with ho | ho
    · exact ⟨_, _, ho, rfl⟩
    · exact ⟨_, _, ho, rfl⟩
  have hpath : stylePath job.settings job.directory job.task.name =
      ⟨job.directory.root, job.directory.names ++ [job.styleName]⟩ :=
    Path.child_of_isName hstyle.1 _
  obtain ⟨between, isNew, hfirst, hsecond⟩ := h.writes text option style htext ho hr
  rw [hpath] at hfirst
  have hkeeps := (writeNew_grows between (job.targetPath e.fileName) text).keeps
  rw [hsecond] at hkeeps
  rw [job.targetPath_eq htarget] at hsecond
  exact hkeeps.isFile_mono
    (hawaits.isFile_of_writeNew hstyle.2 hfree hfirst (congrArg Prod.snd hsecond))

/-- The imports of an override are told from its source file as it is at the beginning. -/
lemma Job.ImportsAsAnswered.of_extends {before : Disk} {e : Episode} {text : String}
    (h : job.ImportsAsAnswered before e text) (hk : d.Extends before)
    (hsource : d.exists (job.sourcePath e.fileName) = true) : job.ImportsAsAnswered d e text := by
  obtain ⟨code, answer, hr, hrest⟩ := h
  rw [hk.readText_eq hsource] at hr
  exact ⟨code, answer, hr, hrest⟩

/-- **The story of source files couples styles.** -/
lemma Prepared.couplesStyles {op : Operator σ} {s s' : Scene σ} {created : List Path}
    (hp : Prepared settings task target s.disk (some (job, files))) (hs : s.disk.Sound)
    (h : job.ToldAll files s.disk (.ok created) s'.disk transcript)
    (hgives : op.Gives transcript s.operator s'.operator)
    (hquestions : Run.questions s' = Run.questions s ++ questionsIn transcript) :
    ∃ episodes, CouplesStyles op job files s s' (created.map Path.toString) episodes := by
  -- the style file is awaited where its name is one
  let inv : Disk → Prop := fun d => Path.IsName job.styleName ∧ job.styleName ≠ ".." →
    Disk.Awaits job.directory job.styleName s.disk d
  have hinv : ∀ f ∈ files, ∀ p ∈ job.outputs f, ∀ d text, inv d → inv (writeNew d p text).1 := by
    intro f hf p hout d text hd hstyle
    obtain ⟨name, hup, rfl⟩ := hp.exists_output_name hs hstyle hf hout
    exact (hd hstyle).writeNew hstyle.2 hup text
  obtain ⟨episodes, hfiles, rfl, rfl, hall⟩ :=
    h.exists_episodes inv hinv fun _ => .inr .start
  have hmem : ∀ e ∈ episodes, e.fileName ∈ files := fun e he => by
    rw [← hfiles]
    exact List.mem_map_of_mem he
  refine ⟨episodes, hfiles, hgives, hquestions, rfl, fun e he => ?_, fun e he => ?_,
    fun e he text ht => ?_, job.styleName_iff, fun hslash hext hfree e he hoverride hoption => ?_⟩
  · obtain ⟨_, _, -, -, hgoes, -⟩ := hall e he
    exact hgoes.style_iff
  · obtain ⟨_, _, -, -, hgoes, -⟩ := hall e he
    exact hgoes.styleFile
  · obtain ⟨_, _, -, hk, hgoes, -⟩ := hall e he
    exact (hgoes.override text ht).of_extends hk (hp.exists_sourcePath (hmem e he))
  · obtain ⟨before, after, hawaits, -, hgoes, hk⟩ := hall e he
    have hsome : e.style?.isSome = true := by rcases hoption with ho | ho <;> rw [ho] <;> rfl
    have hname := hp.notMem_name_of_carriesStyles hs (hmem e he) (hgoes.style_iff.mp hsome).2
    have hstyle := Job.isName_styleName hname hslash hext
    have hfile := hgoes.isFile hstyle (hp.isName_targetName hs (hmem e he)).1 (hawaits hstyle)
      hfree hoverride hoption
    exact Job.hasStyleFile_of_isFile h.records hstyle.1 (Job.moments_subset he)
      (hk.isFile_mono hfile)

end

/-- **Style imports and style files go together**, as far as the extension for styles allows. A run
that gives a result has nothing to do, or it couples styles.

**Proof sketch.** Each source file has its episode (`Job.ToldAll.exists_episodes`), in which the
style file is tried before the override. What a writer finds in the place of the style file is a
file (`Disk.Awaits.isFile_of_writeNew`): it was there before the run or is written in it, or the
directory is refused, and then the override is not new. What an override imports is told by the last
statements before its exports (`OverridePlan.importsStyles_text`). -/
theorem extend_styles (op : Operator σ) (tidier : Tidier) (settings : Settings) (task : Task)
    {s s' : Scene σ} {created : List String}
    (h : extend op tidier settings task s = (.ok created, s')) (hs : s.disk.Sound) :
    (created = [] ∧ s'.disk = s.disk) ∨
    ∃ target job files episodes, moduleAt s.disk settings task.target = .ok target ∧
      Prepared settings task target s.disk (some (job, files)) ∧
      CouplesStyles op job files s s' created episodes := by
  obtain ⟨transcript, htold, hgives, hquestions⟩ := extend_tells op tidier settings task s
  rw [h] at htold hgives hquestions
  dsimp only at htold hgives hquestions
  generalize hresult : (Except.ok created : Except Failure _) = result at htold
  generalize hafter : s'.disk = after at htold
  cases htold with
  | stopped => cases hresult
  | nothing =>
    cases hresult
    exact .inl ⟨rfl, rfl⟩
  | @handled _ _ target job files result _ ht hp hall =>
    cases result with
    | error f => cases hresult
    | ok paths =>
      cases hresult
      subst hafter
      obtain ⟨episodes, hcouples⟩ := hp.couplesStyles hs hall hgives hquestions
      exact .inr ⟨target, job, files, episodes, ht, hp, hcouples⟩

/-- With the usual extension, the style file that the override imports is there. -/
theorem extend_styles_twoModules : ∃ s' : Scene Unit,
    extend Operator.eager (fun _ _ _ => {}) {} Task.betweenModules ⟨Disk.twoModules, (), []⟩ =
      (.ok ["/t/src/component/X/X.style.scss", "/t/src/component/X/X.component.js"], s') ∧
    Disk.twoModules.Sound ∧
    ∃ job episodes, CouplesStyles Operator.eager job ["X.component.js"] ⟨Disk.twoModules, (), []⟩ s'
        ["/t/src/component/X/X.style.scss", "/t/src/component/X/X.component.js"] episodes ∧
      ∃ e ∈ episodes,
        job.HasStyleFile Disk.twoModules s'.disk (episodes.flatMap job.moments) e := by
  obtain ⟨s', hrun, -⟩ := extend_twoModules
  refine ⟨s', hrun, Disk.twoModules_sound, ?_⟩
  rcases extend_styles Operator.eager (fun _ _ _ => {}) {} Task.betweenModules hrun
    Disk.twoModules_sound with ⟨hnone, -⟩ | ⟨target, job, files, episodes, ht, hp, hcouples⟩
  · cases hnone
  · obtain rfl := Except.ok.inj (Eq.trans (by rfl) ht)
    obtain ⟨rfl, rfl⟩ := Prod.mk.inj (Option.some.inj (Task.prepared_betweenModules.unique hp))
    refine ⟨_, episodes, hcouples, ?_⟩
    obtain ⟨e, rfl⟩ : ∃ e, episodes = [e] := by
      have hlength := congrArg List.length hcouples.files_eq
      rw [List.length_map] at hlength
      exact List.length_eq_one_iff.mp hlength
    have he : e ∈ [e] := List.mem_singleton_self e
    have hcreated := congrArg List.length hcouples.created_eq
    rw [List.flatMap_singleton, Job.writtenIn_moments] at hcreated
    obtain ⟨style, hstyle⟩ : ∃ style, e.styleFile? = some style := by
      cases h : e.styleFile? with
      | none => cases ho : e.override? <;> simp [h, ho] at hcreated
      | some style => exact ⟨style, rfl⟩
    have hoverride : e.override?.isSome = true := by
      cases h : e.override? with
      | none => simp [h, hstyle] at hcreated
      | some text => rfl
    obtain ⟨option, hoption, hrender⟩ := hcouples.styleFile e he style hstyle
    refine ⟨e, he, hcouples.file (by decide) (by decide) ?_ e he hoverride ?_⟩
    · have hnone : (Disk.twoModules.makeDirectories ⟨"/", ["t", "src", "component", "X"]⟩).1.follow
          false ⟨"/", ["t", "src", "component", "X", "X.style.scss"]⟩ =
            .ok (.vacant ["t", "src", "component", "X", "X.style.scss"]) := by decide +kernel
      intro place node hfollow
      rw [Disk.parent_below] at hfollow
      cases hnone.symm.trans hfollow
    · cases option with
      | keep => cases hrender
      | extend => exact .inl hoption
      | override => exact .inr hoption

/-- An extension for styles that begins in another way than the imports do. -/
def Settings.plainStyles : Settings := { styleExtension := ".scss" }

set_option maxRecDepth 10000 in
/-- **An import of styles that are not there.** With another extension, the override imports the
styles that it is to extend, but the style file has another name, and no file in the directory has a
name that begins as the import says. -/
theorem extend_styles_renamed : ∃ s' : Scene Unit,
    extend Operator.eager (fun _ _ _ => {}) .plainStyles Task.betweenModules
      ⟨Disk.twoModules, (), []⟩ =
        (.ok ["/t/src/component/X/X.scss", "/t/src/component/X/X.component.js"], s') ∧
    s'.disk.read ⟨"/", ["t", "src", "component", "X", "X.component.js"]⟩ = .ok (Text.encode
      ("import \x7b a as sourceA \x7d from 'b/src/component/X/X.component';\n" ++
        "import 'b/src/component/X/X.style';\nimport './X.style';\n\n" ++
        "export const a = sourceA;\n")) ∧
    s'.disk.list ⟨"/", ["t", "src", "component", "X"]⟩ = .ok ["X.scss", "X.component.js"] ∧
    ∀ name ∈ ["X.scss", "X.component.js"], ¬ "X.style".toList <+: name.toList := by
  generalize hrun : extend Operator.eager (fun _ _ _ => {}) .plainStyles Task.betweenModules
    ⟨Disk.twoModules, (), []⟩ = run
  obtain ⟨hresult, hread, hlist⟩ :
      run.1 = .ok ["/t/src/component/X/X.scss", "/t/src/component/X/X.component.js"] ∧
      run.2.disk.read ⟨"/", ["t", "src", "component", "X", "X.component.js"]⟩ = .ok (Text.encode
        ("import \x7b a as sourceA \x7d from 'b/src/component/X/X.component';\n" ++
          "import 'b/src/component/X/X.style';\nimport './X.style';\n\n" ++
          "export const a = sourceA;\n")) ∧
      run.2.disk.list ⟨"/", ["t", "src", "component", "X"]⟩ =
        .ok ["X.scss", "X.component.js"] := by
    rw [← hrun]
    -- the characters are spelled out, as they take long to compute from a long text
    unfold Text.encode
    simp only [String.toList_append]
    rewrite [String.toList_ofList, String.toList_ofList, String.toList_ofList]
    decide +kernel
  exact ⟨run.2, Prod.ext hresult rfl, hread, hlist, by decide⟩

end ThemeOverride
