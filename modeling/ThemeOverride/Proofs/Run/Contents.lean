import ThemeOverride.Proofs.Disk.LastName
import ThemeOverride.Proofs.Override.Pieces
import ThemeOverride.Proofs.Run.Independence
import ThemeOverride.Proofs.Run.Tidying

/-!
# What new files hold

Every file that is new after a run, also after one that fails, is a style file that the operator has
asked for, or an override that was made for a source file from what the operator has chosen, and
then it can be read as a script. A source file for which no such override can be made gets none, and
the others get theirs.

## Main definitions

* `ThemeOverride.Disk.Holds` — a file at a path, under the last name of the path.
* `ThemeOverride.Records` — a transcript records how a disk has grown.
* `ThemeOverride.Job.IsStyleText`, `ThemeOverride.Job.IsOverrideText` — where the text of a new file
  comes from.
* `ThemeOverride.Job.Rejected` — no override can be made for a source file.

## Main results

* `ThemeOverride.Job.ToldAll.records`, `ThemeOverride.Job.ToldAll.origin` — what is written for source
  files, and where it comes from.
* `ThemeOverride.Job.Rejected.goesOn` — what comes of a source file without an override.
* `ThemeOverride.extend_contents` — what the new files of a run hold.
-/

namespace ThemeOverride

variable {σ : Type}

/-! ## Transcripts and disks -/

/-- A file with some content lies at the end of a path, and under the last name of the path, unless
that leads up. -/
def Disk.Holds (d : Disk) (p : Path) (content : List UInt8) : Prop :=
  ∃ place, d.follow true p = .ok (.node place (.file content)) ∧
    ∀ name, p.names.getLast? = some name → name ≠ ".." → place.getLast? = some name

section

variable {d d₁ d' : Disk} {p : Path} {text : String} {content : List UInt8}

/-- What is held stays where it is. -/
lemma Disk.Holds.mono (h : d.Holds p content) (he : d.Extends d') : d'.Holds p content := by
  obtain ⟨place, hfollow, hlast⟩ := h
  exact ⟨place, he.follow_node hfollow, hlast⟩

/-- What is written is held. -/
lemma holds_of_writeNew (h : writeNew d p text = (d', .ok true)) : d'.Holds p (Text.encode text) := by
  unfold writeNew at h
  split at h
  · cases h
  · split at h
    · cases Disk.eq_false_of_writeOutcome (Prod.mk.inj h).2
    · rw [Disk.createFilled_eq] at h
      split at h
      · cases Disk.eq_false_of_writeOutcome (Prod.mk.inj h).2
      · rename_i place hv
        cases h
        exact ⟨place, Disk.follow_put_fill hv _, fun name => Disk.getLast?_of_vacancy hv⟩

/-- What exists keeps its content. -/
lemma Disk.Extends.readText_eq (h : d.Extends d') (hp : d.exists p = true) :
    readText d' p = readText d p := by
  have hread : d'.read p = d.read p := by
    unfold Disk.exists Disk.nodeAt? at hp
    split at hp
    · rename_i place node hfollow
      rw [Disk.read, Disk.read, hfollow, h.follow_node hfollow]
    · cases hp
  rw [readText, readText, hread]

/-- **A transcript records how a disk has grown**: by the files that are written in it, which hold
what is written. -/
structure Records (transcript : List Moment) (d d' : Disk) : Prop where
  grows : d.Grows (writtenIn transcript) d'
  holds : ∀ p text, .wrote p text ∈ transcript → d'.Holds p (Text.encode text)

namespace Records

variable {xs ys : List Moment}

protected lemma nil (d : Disk) : Records [] d d := ⟨.refl d, fun _ _ h => by cases h⟩

protected lemma append (h : Records xs d d₁) (h' : Records ys d₁ d') : Records (xs ++ ys) d d' where
  grows := by
    rw [writtenIn, List.filterMap_append]
    exact h.grows.append h'.grows
  holds := by
    intro p text hm
    rcases List.mem_append.mp hm with hm | hm
    · exact (h.holds p text hm).mono h'.grows.keeps
    · exact h'.holds p text hm

/-- A question changes nothing on a disk. -/
lemma cons {m : Moment} (hm : m.written? = none) (h : Records xs d d') : Records (m :: xs) d d' where
  grows := by
    rw [writtenIn, List.filterMap_cons_none hm]
    exact h.grows
  holds := by
    intro p text hp
    rcases List.mem_cons.mp hp with rfl | hp
    · cases hm
    · exact h.holds p text hp

/-- A file that is written if it is not there. -/
lemma ofWrite {written : Except Failure Bool} (h : writeNew d p text = (d', written)) :
    Records (Moment.ofWrite p text written) d d' where
  grows := by
    have hg := writeNew_grows d p text
    rw [h] at hg
    rw [writtenIn, Moment.written?_ofWrite]
    exact hg
  holds := by
    intro q other hm
    obtain ⟨hq, rfl⟩ := Moment.mem_ofWrite hm
    cases hq
    exact holds_of_writeNew h

/-- A new file is one that is written, and lies under the last name of its path. -/
lemma exists_wrote (h : Records xs d d') {place : Place}
    (hn : d'.node? place = some (.file content)) (hb : d.node? place = none) :
    ∃ p text, .wrote p text ∈ xs ∧ content = Text.encode text ∧
      d'.follow true p = .ok (.node place (.file content)) ∧
      ∀ name, p.names.getLast? = some name → name ≠ ".." → place.getLast? = some name := by
  obtain ⟨p, hp, hfollow⟩ := h.grows.listed place content hn hb
  obtain ⟨m, hm, hwritten⟩ := List.mem_filterMap.mp hp
  cases m with
  | exports => cases hwritten
  | style => cases hwritten
  | wrote q text =>
    obtain ⟨other, hfollow', hlast⟩ := h.holds q text hm
    cases hwritten
    rw [hfollow] at hfollow'
    cases hfollow'
    exact ⟨p, text, hm, rfl, hfollow, hlast⟩

end Records

end

/-! ## Source files -/

namespace Job

section

variable (job : Job) (d : Disk) (transcript : List Moment) (fileName : String) (text : String)

/-- The text of a style file that the operator has asked for. -/
def IsStyleText : Prop :=
  ∃ option, (option = .extend ∨ option = .override) ∧
    .style Console.stylePrompt (.ok option) ∈ transcript ∧
    option.render? job.task.name = some text

/-- The text that is made for a source file from exports that the operator has chosen. -/
def IsOverrideText : Prop :=
  ∃ code answer style, readText d (job.sourcePath fileName) = .ok code ∧
    .exports (Console.exportPrompt fileName) (job.reading fileName code).exports.named (.ok answer) ∈
      transcript ∧
    chosenAmong (job.reading fileName code).exports.named answer ≠ [] ∧
    synthesize (job.plan fileName (job.reading fileName code)
      (chosenAmong (job.reading fileName code).exports.named answer) style) = .ok text

/-- Where a file that is written for a source file comes from. -/
def Origin (p : Path) : Prop :=
  (p = stylePath job.settings job.directory job.task.name ∧ job.IsStyleText transcript text) ∨
  (p = job.targetPath fileName ∧ job.IsOverrideText d transcript fileName text)

end

section

variable {job : Job} {fileName : String} {d d' : Disk} {transcript : List Moment} {p : Path}
  {text : String}

/-- An origin does not depend on what happens besides. -/
lemma Origin.mono {more : List Moment} (h : job.Origin d transcript fileName text p)
    (hsub : transcript ⊆ more) : job.Origin d more fileName text p := by
  rcases h with ⟨hp, option, hoption, hm, ht⟩ | ⟨hp, code, answer, style, hr, hm, hc, ht⟩
  · exact .inl ⟨hp, option, hoption, hsub hm, ht⟩
  · exact .inr ⟨hp, code, answer, style, hr, hsub hm, hc, ht⟩

/-- An origin on a later disk is one on the disk before, if the source file is there. -/
lemma Origin.of_extends {between : Disk} (h : job.Origin between transcript fileName text p)
    (he : d.Extends between) (hsource : d.exists (job.sourcePath fileName) = true) :
    job.Origin d transcript fileName text p := by
  rcases h with h | ⟨hp, code, answer, style, hr, hrest⟩
  · exact .inl h
  · rw [he.readText_eq hsource] at hr
    exact .inr ⟨hp, code, answer, style, hr, hrest⟩

lemma ToldStyle.records {result : Except Failure (Option StyleOption × List Path)}
    (h : ToldStyle job fileName d result d' transcript) : Records transcript d d' := by
  cases h with
  | none => exact .nil d
  | unanswered => exact .cons rfl (.nil d)
  | keep => exact .cons rfl (.nil d)
  | file _ _ hw => exact .cons rfl (.ofWrite hw)

lemma ToldStyle.origin {result : Except Failure (Option StyleOption × List Path)}
    (h : ToldStyle job fileName d result d' transcript) (hm : .wrote p text ∈ transcript) :
    p = stylePath job.settings job.directory job.task.name ∧ job.IsStyleText transcript text := by
  cases h with
  | none => cases hm
  | unanswered => simp at hm
  | keep => simp at hm
  | @file _ _ option _ _ _ ht _ =>
    obtain ⟨hwrote, -⟩ := Moment.mem_ofWrite ((List.mem_cons.mp hm).resolve_left (by simp))
    cases hwrote
    refine ⟨rfl, option, ?_, List.mem_cons_self, ht⟩
    cases option with
    | keep => cases ht
    | extend => exact .inl rfl
    | override => exact .inr rfl

lemma ToldWrite.records {plan : OverridePlan} {result : Except Failure (List Path)}
    (h : ToldWrite job fileName plan d result d' transcript) : Records transcript d d' := by
  cases h with
  | failed => exact .nil d
  | tried _ hw => exact .ofWrite hw

lemma ToldOverride.records {source : SourceReading} {result : Except Failure (List Path)}
    (h : ToldOverride job fileName source d result d' transcript) : Records transcript d d' := by
  cases h with
  | unanswered => exact .cons rfl (.nil d)
  | stopped hs => exact .cons rfl hs.records
  | nothing hs => exact .cons rfl hs.records
  | chosen hs _ hw => exact .cons rfl (hs.records.append hw.records)

/-- **What is written for a source file is recorded.** -/
theorem Told.records {result : Except Failure (List Path)}
    (h : Told job fileName d result d' transcript) : Records transcript d d' := by
  cases h with
  | skipped | present | unread | bare => exact .nil d
  | overridden _ _ _ _ ho => exact ho.records

/-- **What is written for a source file has its origin** in what the operator has answered. -/
theorem Told.origin {result : Except Failure (List Path)}
    (h : Told job fileName d result d' transcript) (hm : .wrote p text ∈ transcript) :
    job.Origin d transcript fileName text p := by
  cases h with
  | skipped | present | unread | bare => cases hm
  | @overridden _ _ code _ _ _ _ hr _ ho =>
    have hstyle : ∀ {r : Except Failure (Option StyleOption × List Path)} {d₁ : Disk}
        {styling rest : List Moment} {m : Moment}, ToldStyle job fileName d r d₁ styling →
        .wrote p text ∈ styling → styling ⊆ rest → job.Origin d (m :: rest) fileName text p :=
      fun hs hm hsub =>
        Origin.mono (.inl (hs.origin hm)) fun _ h => List.mem_cons_of_mem _ (hsub h)
    cases ho with
    | unanswered => simp at hm
    | stopped hs =>
      exact hstyle hs ((List.mem_cons.mp hm).resolve_left (by simp)) fun _ h => h
    | nothing hs =>
      exact hstyle hs ((List.mem_cons.mp hm).resolve_left (by simp)) fun _ h => h
    | @chosen _ _ _ answer style _ _ writing _ hs hc hw =>
      rcases List.mem_append.mp ((List.mem_cons.mp hm).resolve_left (by simp)) with hm | hm
      · exact hstyle hs hm (List.subset_append_left _ _)
      · cases hw with
        | failed => cases hm
        | tried ht _ =>
          obtain ⟨hwrote, -⟩ := Moment.mem_ofWrite hm
          cases hwrote
          exact .inr ⟨rfl, code, answer, style, hr, List.mem_cons_self, hc, ht⟩

/-- **What is written for source files is recorded.** -/
theorem ToldAll.records {files : List String} {result : Except Failure (List Path)}
    (h : ToldAll job files d result d' transcript) : Records transcript d d' := by
  induction h with
  | nil => exact .nil _
  | stopped h => exact h.records
  | cons h _ ih => exact h.records.append ih

/-- **What is written for source files has its origin** in one of them, as it is at the beginning. -/
theorem ToldAll.origin {files : List String} {result : Except Failure (List Path)}
    (h : ToldAll job files d result d' transcript)
    (hsources : ∀ f ∈ files, d.exists (job.sourcePath f) = true)
    (hm : .wrote p text ∈ transcript) : ∃ f ∈ files, job.Origin d transcript f text p := by
  induction h with
  | nil => cases hm
  | stopped h => exact ⟨_, List.mem_cons_self, h.origin hm⟩
  | cons h _ ih =>
    rcases List.mem_append.mp hm with hm | hm
    · exact ⟨_, List.mem_cons_self, (h.origin hm).mono (List.subset_append_left _ _)⟩
    · have he := h.records.grows.keeps
      obtain ⟨f, hf, horigin⟩ := ih (fun f hf =>
        he.exists_mono (hsources f (List.mem_cons_of_mem _ hf))) hm
      exact ⟨f, List.mem_cons_of_mem _ hf,
        (horigin.of_extends he (hsources f (List.mem_cons_of_mem _ hf))).mono
          (List.subset_append_right _ _)⟩

end

end Job

/-! ## Source files for which no override can be made -/

namespace Job

section

variable (op : Operator σ) (job : Job) (fileName : String)

/-- How styles are treated for a source file, by the answer that an operator gives. -/
def answeredStyle (o : σ) : Except Failure (Option StyleOption) :=
  if job.task.type.carriesStyles fileName then (op.style Console.stylePrompt o).1.map some
  else .ok none

/-- **No override can be made for a source file** in its turn on a disk: the operator chooses something
in it, the style file is written if it is asked for, and what is made for the file cannot be read as a
script. -/
inductive Rejected (d : Disk) (o : σ) : Prop
  | intro {code : String} {answer : List ExportRecord} {o₁ : σ} {style : Option StyleOption}
      {f : Failure} (hskip : job.isSkipped fileName = false)
      (hp : d.exists (job.targetPath fileName) = false)
      (hr : readText d (job.sourcePath fileName) = .ok code)
      (ha : op.exports (Console.exportPrompt fileName) (job.reading fileName code).exports.named o =
        (.ok answer, o₁))
      (hc : chosenAmong (job.reading fileName code).exports.named answer ≠ [])
      (hs : job.answeredStyle op fileName o₁ = .ok style)
      (hw : ∀ option text, style = some option → option.render? job.task.name = some text →
        ∃ isNew, (writeNew d (stylePath job.settings job.directory job.task.name) text).2 = .ok isNew)
      (hf : synthesize (job.plan fileName (job.reading fileName code)
        (chosenAmong (job.reading fileName code).exports.named answer) style) = .error f) :
      Rejected d o

/-- A source file gets no override, and the files behind it have their turns: its turn gives the paths
of the files that are new, and these are style files. -/
def GoesOn (s : Scene σ) : Prop :=
  ∃ styles, (job.handle op fileName s).1 = .ok styles ∧ styles.Sublist (job.styleOutputs fileName) ∧
    s.disk.Grows styles (job.handle op fileName s).2.disk ∧
    ∀ rest, job.handleAll op (fileName :: rest) s =
      ((job.handleAll op rest (job.handle op fileName s).2).1.map (styles ++ ·),
        (job.handleAll op rest (job.handle op fileName s).2).2)

end

section

variable {op : Operator σ} {job : Job} {fileName : String} {d d' : Disk} {o o' : σ}
  {styling rest : List Moment} {style : Option StyleOption} {styles : List Path}

lemma ToldStyle.sublist (h : ToldStyle job fileName d (.ok (style, styles)) d' styling) :
    styles.Sublist (job.styleOutputs fileName) := by
  generalize hresult : (Except.ok (style, styles) : Except Failure _) = result at h
  cases h with
  | none | keep => cases hresult; exact List.nil_sublist _
  | unanswered => cases hresult
  | @file _ _ _ _ written h =>
    cases written with
    | error e => cases hresult
    | ok isNew =>
      cases hresult
      rw [styleOutputs, if_pos h]
      split
      · exact List.Sublist.refl _
      · exact List.nil_sublist _

/-- The story of the styles has the answer of the operator. -/
lemma ToldStyle.answered (h : ToldStyle job fileName d (.ok (style, styles)) d' styling)
    (hg : op.Gives (styling ++ rest) o o') : job.answeredStyle op fileName o = .ok style := by
  generalize hresult : (Except.ok (style, styles) : Except Failure _) = result at h
  unfold answeredStyle
  cases h with
  | none h =>
    cases hresult
    rw [if_neg (by simp [h])]
  | unanswered => cases hresult
  | keep h =>
    cases hresult
    cases hg with
    | style ha => rw [if_pos h, ha]; rfl
  | @file _ _ _ _ written h =>
    cases hg with
    | style ha =>
      rw [if_pos h, ha]
      cases written with
      | error e => cases hresult
      | ok isNew => cases hresult; rfl

/-- If the operator answers, the styles fail where their file cannot be written. -/
lemma ToldStyle.failed {e : Failure} (h : ToldStyle job fileName d (.error e) d' styling)
    (hg : op.Gives styling o o') (ha : job.answeredStyle op fileName o = .ok style) :
    ∃ option text, style = some option ∧ option.render? job.task.name = some text ∧
      (writeNew d (stylePath job.settings job.directory job.task.name) text).2 = .error e := by
  generalize hresult : (Except.error e : Except Failure _) = result at h
  cases h with
  | none => cases hresult
  | unanswered h =>
    cases hg with
    | style hstyle =>
      rw [answeredStyle, if_pos h, hstyle] at ha
      cases ha
  | keep => cases hresult
  | @file _ _ option text written h ht hw =>
    cases written with
    | ok isNew => cases hresult
    | error e' =>
      cases hresult
      cases hg with
      | style hstyle =>
        rw [answeredStyle, if_pos h, hstyle] at ha
        exact ⟨option, text, (Except.ok.inj ha).symm, ht, by rw [hw]⟩

/-- The story of a source file for which no override can be made. -/
lemma Rejected.told {transcript : List Moment} {result : Except Failure (List Path)}
    (h : job.Rejected op fileName d o) (htold : Told job fileName d result d' transcript)
    (hg : op.Gives transcript o o') :
    ∃ styles, result = .ok styles ∧ styles.Sublist (job.styleOutputs fileName) := by
  obtain ⟨hskip, hp, hr, ha, hc, hs, hw, hf⟩ := h
  cases htold with
  | skipped h => rw [hskip] at h; cases h
  | present _ h => rw [hp] at h; cases h
  | unread _ _ h => rw [hr] at h; cases h
  | bare _ _ h hn =>
    rw [hr, Except.ok.injEq] at h
    subst h
    rw [hn] at hc
    simp [chosenAmong] at hc
  | overridden _ _ h _ ho =>
    rw [hr, Except.ok.injEq] at h
    subst h
    cases ho with
    | unanswered => cases hg with | exports h => rw [ha] at h; cases h
    | stopped hstyle =>
      cases hg with
      | exports h hrest =>
        rw [ha] at h
        cases h
        obtain ⟨option, text, hoption, ht, hfailed⟩ := hstyle.failed hrest hs
        obtain ⟨isNew, hnew⟩ := hw option text hoption ht
        rw [hfailed] at hnew
        cases hnew
    | nothing _ hnone =>
      cases hg with
      | exports h =>
        rw [ha] at h
        cases h
        exact absurd hnone hc
    | @chosen _ _ _ _ _ styles _ _ _ hstyle _ hwrite =>
      cases hg with
      | exports h hrest =>
        rw [ha] at h
        cases h
        have hsame := hstyle.answered hrest
        rw [hs, Except.ok.injEq] at hsame
        subst hsame
        cases hwrite with
        | failed => exact ⟨styles, congrArg _ (List.append_nil _), hstyle.sublist⟩
        | tried h => rw [hf] at h; cases h

/-- **What comes of a source file for which no override can be made**: it gets none and the run goes
on. -/
theorem Rejected.goesOn {s : Scene σ} (h : job.Rejected op fileName s.disk s.operator) :
    job.GoesOn op fileName s := by
  obtain ⟨transcript, htold, hgives, -⟩ := job.handle_tells op fileName s
  have hensures :=
    (Run.ensures_iff.mp (handle_ensures op job s.disk [] fileName) s (.refl s.disk)).1
  obtain ⟨styles, hresult, hsub⟩ := h.told htold hgives
  refine ⟨styles, hresult, hsub, (hensures styles hresult).1, fun rest => ?_⟩
  have hrun : job.handle op fileName s = (.ok styles, (job.handle op fileName s).2) :=
    Prod.ext hresult rfl
  change Run.bind (job.handle op fileName) (fun created => Run.bind (job.handleAll op rest)
    fun more => Run.pure (created ++ more)) s = _
  rw [Run.bind, hrun]
  dsimp only
  rw [Run.bind]
  cases job.handleAll op rest (job.handle op fileName s).2 with
  | mk result s' => cases result <;> rfl

end

end Job

/-! ## The whole run -/

/-- The last name of a child is a name, if that of the directory is. -/
lemma Path.isName_getLast_child {p : Path} {s name : String}
    (hp : ∀ last, p.names.getLast? = some last → Path.IsName last)
    (h : (p.child s).names.getLast? = some name) : Path.IsName name := by
  have hs : ∀ last, (Path.ofString s).names.getLast? = some last → Path.IsName last :=
    fun last hlast => (Path.proper_ofString s).isName last (List.mem_of_getLast? hlast)
  unfold Path.child Path.join at h
  split at h
  · exact hs name h
  · rw [List.getLast?_append, Option.or_eq_some_iff] at h
    rcases h with h | ⟨-, h⟩
    · exact hs name h
    · exact hp name h

section

variable {settings : Settings} {task : Task} {target : Module} {d : Disk} {job : Job}
  {files : List String} {fileName : String}

/-- The source files of a run are there. -/
lemma Prepared.exists_sourcePath (h : Prepared settings task target d (some (job, files)))
    (hf : fileName ∈ files) : d.exists (job.sourcePath fileName) = true := by
  rcases eq_or_ne task.type .query with htype | htype
  · cases h with
    | found hlocate => simpa [Job.sourcePath, htype] using exists_of_locate hlocate
  · exact Disk.Grows.exists_of_isFile (h.exists_list htype hf).2

/-- The file of a query has a name that paths spell. -/
lemma isName_of_query {root resource : Path} {name : String}
    (h : resourceIn? d settings root .query name = some resource) :
    Path.IsName resource.name ∧ resource.name ≠ ".." := by
  unfold resourceIn? at h
  dsimp only at h
  rw [if_pos (by rfl)] at h
  obtain ⟨last, hlast, hup⟩ := Disk.exists_getLast?_of_isFile (List.find?_some h)
  obtain ⟨extension, -, rfl⟩ := List.mem_map.mp (List.mem_of_find?_eq_some h)
  have hname := Path.isName_getLast_child (fun above habove => ?_) hlast
  · rw [Path.name, hlast]
    exact ⟨hname, hup⟩
  · have hquery : above = "query" := by
      simpa [ResourceType.directory, Path.join, Path.isAbsolute] using habove.symm
    rw [hquery]
    unfold Path.IsName
    decide

/-- The overrides of a run have names that paths spell. -/
lemma Prepared.isName_targetName (h : Prepared settings task target d (some (job, files)))
    (hs : d.Sound) (hf : fileName ∈ files) :
    Path.IsName (job.targetName fileName) ∧ job.targetName fileName ≠ ".." := by
  rcases eq_or_ne task.type .query with htype | htype
  · cases h with
    | @found resource directory source notes files hlocate hsource hcan hfiles hdirectory =>
      rw [fileList, htype] at hfiles
      obtain rfl := Except.ok.inj hfiles
      obtain rfl := List.mem_singleton.mp hf
      obtain ⟨root, hroot⟩ := resourceIn?_of_locate hlocate
      rw [htype] at hroot
      have hname := isName_of_query hroot
      unfold Job.targetName
      split
      · exact hname
      · exact isName_untypedFileName hname
  · exact (h.mem_files htype hs hf).2

end

/-- **What a new file of a run holds**: it is the style file that the operator has asked for, or an
override that is made for a source file from what the operator has chosen, and the grammar that goes
with its name reads it without an error. -/
def Job.Accounts (job : Job) (files : List String) (before after : Disk) (transcript : List Moment)
    (place : Place) (content : List UInt8) : Prop :=
  ∃ text, content = Text.encode text ∧
    (after.follow true (stylePath job.settings job.directory job.task.name) =
        .ok (.node place (.file content)) ∧ job.IsStyleText transcript text ∨
      ∃ fileName ∈ files,
        after.follow true (job.targetPath fileName) = .ok (.node place (.file content)) ∧
        job.IsOverrideText before transcript fileName text ∧
        ∃ name, place.getLast? = some name ∧
          Script.hasSyntaxErrors (Script.Dialect.ofFileName name) text.toList = false)

/-- What is made can be read as a script, by the grammar that goes with its name. -/
lemma Job.hasSyntaxErrors_of_synthesize {job : Job} {fileName text : String}
    {source : SourceReading} {chosen : List ExportRecord} {style : Option StyleOption}
    (h : synthesize (job.plan fileName source chosen style) = .ok text) :
    Script.hasSyntaxErrors (Script.Dialect.ofFileName (job.targetName fileName)) text.toList = false :=
  (synthesize_eq_ok_iff.mp h).2

section

variable {settings : Settings} {task : Task} {d d' : Disk} {result : Except Failure (List String)}
  {transcript : List Moment} {place : Place} {content : List UInt8}

/-- Where the new files come from, by the story of a run: the override of a source file lies under
its name. -/
lemma Told.origin_new (h : Told settings task d result d' transcript) (hs : d.Sound)
    (hn : d'.node? place = some (.file content)) (hb : d.node? place = none) :
    ∃ target job files, moduleAt d settings task.target = .ok target ∧
      Prepared settings task target d (some (job, files)) ∧
      ∃ text, content = Text.encode text ∧
        (d'.follow true (stylePath job.settings job.directory job.task.name) =
            .ok (.node place (.file content)) ∧ job.IsStyleText transcript text ∨
          ∃ fileName ∈ files,
            d'.follow true (job.targetPath fileName) = .ok (.node place (.file content)) ∧
            job.IsOverrideText d transcript fileName text ∧
            place.getLast? = some (job.targetName fileName)) := by
  cases h with
  | stopped => rw [hb] at hn; cases hn
  | nothing => rw [hb] at hn; cases hn
  | @handled _ _ target job files _ _ ht hp h =>
    obtain ⟨p, text, hm, hcontent, hfollow, hlast⟩ := h.records.exists_wrote hn hb
    obtain ⟨f, hf, horigin⟩ := h.origin (fun f hf => hp.exists_sourcePath hf) hm
    refine ⟨target, job, files, ht, hp, text, hcontent, ?_⟩
    rcases horigin with ⟨rfl, hstyle⟩ | ⟨rfl, hoverride⟩
    · exact .inl ⟨hfollow, hstyle⟩
    · obtain ⟨hname, hup⟩ := hp.isName_targetName hs hf
      rw [job.targetPath_eq hname] at hlast
      exact .inr ⟨f, hf, hfollow, hoverride, hlast _ (by simp) hup⟩

/-- What the new files hold, by the story of a run. -/
lemma Told.accounts (h : Told settings task d result d' transcript) (hs : d.Sound)
    (hn : d'.node? place = some (.file content)) (hb : d.node? place = none) :
    ∃ target job files, moduleAt d settings task.target = .ok target ∧
      Prepared settings task target d (some (job, files)) ∧
      job.Accounts files d d' transcript place content := by
  obtain ⟨target, job, files, ht, hp, text, hcontent, horigin⟩ := h.origin_new hs hn hb
  refine ⟨target, job, files, ht, hp, text, hcontent, horigin.imp_right ?_⟩
  rintro ⟨f, hf, hfollow, hoverride, hlast⟩
  refine ⟨f, hf, hfollow, hoverride, job.targetName f, hlast, ?_⟩
  obtain ⟨code, answer, style, -, -, -, htext⟩ := hoverride
  exact Job.hasSyntaxErrors_of_synthesize htext

end

/-- The first of the two files exports under a name with a blank in it. -/
def spaceContainer (place : Place) (content : List UInt8) : List UInt8 :=
  if place = ["b", "src", "store", "X", "X.container.js"] then
    Text.encode "export \x7b a as 'a b' \x7d;"
  else content

lemma Job.rejected_spaceContainer : Job.store.Rejected Operator.eager "X.container.js"
    (Disk.twoFiles.rewrite spaceContainer) () := by
  have hr : readText (Disk.twoFiles.rewrite spaceContainer)
      (Job.store.sourcePath "X.container.js") = .ok "export \x7b a as 'a b' \x7d;" := by
    decide
  have hf : synthesize (Job.store.plan "X.container.js"
      (Job.store.reading "X.container.js" "export \x7b a as 'a b' \x7d;")
      (chosenAmong (Job.store.reading "X.container.js"
        "export \x7b a as 'a b' \x7d;").exports.named (Job.store.reading "X.container.js"
        "export \x7b a as 'a b' \x7d;").exports.named) none) =
      .error (.invalidCode "Generated code has invalid syntax" (some "X.container.js") none) := by
    decide +kernel
  exact .intro (by decide) (by decide +kernel) hr rfl (by decide +kernel) rfl nofun hf

end ThemeOverride
