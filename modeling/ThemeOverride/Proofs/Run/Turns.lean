import Mathlib.Tactic.Lemma
import ThemeOverride.Proofs.Disk.Additions
import ThemeOverride.Proofs.Run.Ends

/-!
# The turns of source files

Where an operator always answers alike, what comes of handling a source file depends on the disk
alone. This is said by relations between the disk before, the paths that are given, the disk
afterwards and the questions that were asked, with one constructor for each way in which a turn can
end. A run gives a result exactly as the relations say.

## Main definitions

* `ThemeOverride.Answers`, `ThemeOverride.Operator.Follows` — answers that depend on the question
  alone, and an operator who gives them.
* `ThemeOverride.Run.Gives`, `ThemeOverride.Run.Behaves` — what comes of a run that does not fail.
* `ThemeOverride.Job.Handled`, `ThemeOverride.Job.HandledAll` — what comes of source files.

## Main results

* `ThemeOverride.Run.Behaves.bind` — what comes of one run after another.
* `ThemeOverride.Job.handle_behaves`, `ThemeOverride.Job.handleAll_behaves` — handling source files
  goes as the relations say.
-/

namespace ThemeOverride

variable {σ α β : Type}

/-- Answers that depend on nothing but the question. -/
structure Answers where
  exports : (prompt : String) → (offered : List ExportRecord) → Except Failure (List ExportRecord)
  style : (prompt : String) → Except Failure StyleOption

/-- An operator who gives these answers, whatever happened before. -/
structure Operator.Follows (op : Operator σ) (answers : Answers) : Prop where
  exports : ∀ prompt offered o, (op.exports prompt offered o).1 = answers.exports prompt offered
  style : ∀ prompt o, (op.style prompt o).1 = answers.style prompt

/-- Whether something that happens is a question to the operator. -/
def Event.isQuestion : Event → Bool
  | .askedExports _ _ | .askedStyle _ => true
  | .noted _ | .called _ => false

lemma filter_isQuestion_noted (ns : List Note) :
    (ns.map Event.noted).filter Event.isQuestion = [] := by
  simp [Event.isQuestion]

/-- Nothing is asked when the created files are tidied. -/
lemma TidyReport.filter_isQuestion_events (report : TidyReport) :
    report.events.filter Event.isQuestion = [] := by
  cases hrefused : report.refused <;> simp [TidyReport.events, hrefused, Event.isQuestion]

namespace Run

/-- The questions among the events of a scene. -/
def questions (s : Scene σ) : List Event := s.events.filter Event.isQuestion

/-- What is noted is no question. -/
lemma questions_noted (s : Scene σ) (ns : List Note) :
    questions { s with events := s.events ++ ns.map .noted } = questions s := by
  simp [questions, filter_isQuestion_noted]

/-- What comes of a run: it gives a result and a disk, and has asked questions. -/
def Gives (r : Run σ α) (s : Scene σ) (a : α) (d : Disk) (asked : List Event) : Prop :=
  ∃ s', r s = (.ok a, s') ∧ s'.disk = d ∧ questions s' = questions s ++ asked

/-- **A run behaves** as a relation says if what comes of it depends on the disk alone, as the
relation says. Questions that were asked stay asked. -/
structure Behaves (r : Run σ α) (result : Disk → α → Disk → List Event → Prop) : Prop where
  prefix_questions : ∀ s, questions s <+: questions (r s).2
  gives_iff : ∀ s a d asked, Gives r s a d asked ↔ result s.disk a d asked

lemma bind_eq_ok {r : Run σ β} {next : β → Run σ α} {s s' : Scene σ} {a : α} :
    (r >>= next) s = (.ok a, s') ↔ ∃ b between, r s = (.ok b, between) ∧
      next b between = (.ok a, s') := by
  change Run.bind r next s = (.ok a, s') ↔ _
  unfold Run.bind
  cases hr : r s with
  | mk result between =>
    cases result with
    | error f => simp
    | ok b =>
      simp only [Prod.mk.injEq, Except.ok.injEq]
      exact ⟨fun h => ⟨b, between, ⟨rfl, rfl⟩, h⟩, fun ⟨_, _, ⟨hb, hs⟩, h⟩ => hb ▸ hs ▸ h⟩

namespace Behaves

variable {result result' : Disk → α → Disk → List Event → Prop}

lemma congr {r : Run σ α} (h : Behaves r result)
    (hiff : ∀ d a d' asked, result d a d' asked ↔ result' d a d' asked) : Behaves r result' :=
  ⟨h.prefix_questions, fun s a d asked => (h.gives_iff s a d asked).trans (hiff _ _ _ _)⟩

/-- What comes of a run that was made. -/
lemma of_run {r : Run σ α} (h : Behaves r result) {s s' : Scene σ} {a : α}
    (hrun : r s = (.ok a, s')) :
    ∃ asked, questions s' = questions s ++ asked ∧ result s.disk a s'.disk asked := by
  obtain ⟨asked, hasked⟩ := h.prefix_questions s
  rw [hrun] at hasked
  exact ⟨asked, hasked.symm, (h.gives_iff s a s'.disk asked).mp ⟨s', hrun, rfl, hasked.symm⟩⟩

/-- A run can be made as the relation says. -/
lemma exists_run {r : Run σ α} (h : Behaves r result) {s : Scene σ} {a : α} {d : Disk}
    {asked : List Event} (hr : result s.disk a d asked) :
    ∃ s', r s = (.ok a, s') ∧ s'.disk = d ∧ questions s' = questions s ++ asked :=
  (h.gives_iff s a d asked).mpr hr

/-- What comes of a run on a disk is one thing. -/
lemma unique {r : Run σ α} {result : Disk → α → Disk → List Event → Prop}
    (h : Behaves r result) (o : σ) {d d₁ d₂ : Disk} {a b : α} {asked₁ asked₂ : List Event}
    (ha : result d a d₁ asked₁) (hb : result d b d₂ asked₂) : a = b := by
  obtain ⟨s₁, h₁, -⟩ := h.exists_run (s := ⟨d, o, []⟩) ha
  obtain ⟨s₂, h₂, -⟩ := h.exists_run (s := ⟨d, o, []⟩) hb
  rw [h₁, Prod.mk.injEq] at h₂
  exact Except.ok.inj h₂.1

/-- A run whose result, disk and questions depend on the disk. -/
lemma of_eq {r : Run σ α} (outcome : Disk → Except Failure α) (disk : Disk → Disk)
    (question : Disk → List Event)
    (h : ∀ s, (r s).1 = outcome s.disk ∧ (r s).2.disk = disk s.disk ∧
      questions (r s).2 = questions s ++ question s.disk) :
    Behaves r fun d a d' asked => outcome d = .ok a ∧ d' = disk d ∧ asked = question d := by
  refine ⟨fun s => ⟨question s.disk, (h s).2.2.symm⟩, fun s a d asked => ?_⟩
  obtain ⟨hresult, hdisk, hasked⟩ := h s
  constructor
  · rintro ⟨s', hrun, rfl, hq⟩
    rw [hrun] at hresult hdisk hasked
    refine ⟨hresult.symm, hdisk, ?_⟩
    rw [hq] at hasked
    exact List.append_cancel_left hasked
  · rintro ⟨hok, rfl, rfl⟩
    refine ⟨(r s).2, ?_, hdisk, hasked⟩
    rw [← hok, ← hresult]

protected lemma pure (a : α) :
    Behaves (pure a : Run σ α) fun d b d' asked => a = b ∧ d' = d ∧ asked = [] :=
  (of_eq (fun _ => .ok a) id (fun _ => []) fun s =>
    ⟨rfl, rfl, (List.append_nil (questions s)).symm⟩).congr fun _ _ _ _ => by simp

lemma note (ns : List Note) :
    Behaves (Run.note ns : Run σ Unit) fun d _ d' asked => d' = d ∧ asked = [] :=
  (of_eq (fun _ => .ok ()) id (fun _ => [])
    fun s => ⟨rfl, rfl, by simp [Run.note, questions_noted]⟩).congr fun _ _ _ _ => by simp

lemma disk : Behaves (Run.disk : Run σ Disk) fun d b d' asked => d = b ∧ d' = d ∧ asked = [] :=
  (of_eq .ok id (fun _ => []) fun s =>
    ⟨rfl, rfl, (List.append_nil (questions s)).symm⟩).congr fun _ _ _ _ => by simp

lemma ofExcept (e : Except Failure α) :
    Behaves (Run.ofExcept e : Run σ α) fun d a d' asked => e = .ok a ∧ d' = d ∧ asked = [] :=
  of_eq (fun _ => e) id (fun _ => []) fun s => ⟨rfl, rfl, (List.append_nil (questions s)).symm⟩

lemma change (f : Disk → Disk × List Note × Except Failure α) :
    Behaves (Run.change f : Run σ α)
      fun d a d' asked => (f d).2.2 = .ok a ∧ d' = (f d).1 ∧ asked = [] :=
  of_eq (fun d => (f d).2.2) (fun d => (f d).1) (fun _ => []) fun s =>
    ⟨rfl, rfl, by simp [Run.change, questions, filter_isQuestion_noted]⟩

variable {op : Operator σ} {answers : Answers}

lemma askExports (hop : op.Follows answers) (prompt : String) (offered : List ExportRecord) :
    Behaves (Run.askExports op prompt offered) fun d a d' asked =>
      answers.exports prompt offered = .ok a ∧ d' = d ∧ asked = [.askedExports prompt offered] :=
  of_eq (fun _ => answers.exports prompt offered) id (fun _ => [.askedExports prompt offered])
    fun s => ⟨hop.exports prompt offered s.operator, rfl, List.filter_append _ _⟩

lemma askStyle (hop : op.Follows answers) (prompt : String) :
    Behaves (Run.askStyle op prompt) fun d a d' asked =>
      answers.style prompt = .ok a ∧ d' = d ∧ asked = [.askedStyle prompt] :=
  of_eq (fun _ => answers.style prompt) id (fun _ => [.askedStyle prompt])
    fun s => ⟨hop.style prompt s.operator, rfl, List.filter_append _ _⟩

/-- **One run after another.** -/
theorem bind {r : Run σ β} {first : Disk → β → Disk → List Event → Prop} {next : β → Run σ α}
    (second : β → Disk → α → Disk → List Event → Prop) (hr : Behaves r first)
    (hnext : ∀ b, Behaves (next b) (second b)) :
    Behaves (r >>= next) fun d a d' asked => ∃ b between asked₁ asked₂,
      first d b between asked₁ ∧ second b between a d' asked₂ ∧ asked = asked₁ ++ asked₂ := by
  constructor
  · intro s
    refine (hr.prefix_questions s).trans ?_
    change questions (r s).2 <+: questions (Run.bind r next s).2
    unfold Run.bind
    cases hs : r s with
    | mk outcome between =>
      cases outcome with
      | error f => exact List.prefix_rfl
      | ok b => exact (hnext b).prefix_questions between
  · intro s a d asked
    constructor
    · rintro ⟨s', hrun, rfl, hq⟩
      obtain ⟨b, between, hfirst, hsecond⟩ := bind_eq_ok.mp hrun
      obtain ⟨asked₁, h₁⟩ := hr.prefix_questions s
      obtain ⟨asked₂, h₂⟩ := (hnext b).prefix_questions between
      rw [hfirst] at h₁
      rw [hsecond] at h₂
      dsimp only at h₁ h₂
      refine ⟨b, between.disk, asked₁, asked₂,
        (hr.gives_iff s b between.disk asked₁).mp ⟨between, hfirst, rfl, h₁.symm⟩,
        ((hnext b).gives_iff between a s'.disk asked₂).mp ⟨s', hsecond, rfl, h₂.symm⟩, ?_⟩
      rw [← h₂, ← h₁, List.append_assoc] at hq
      exact (List.append_cancel_left hq).symm
    · rintro ⟨b, between, asked₁, asked₂, hfirst, hsecond, rfl⟩
      obtain ⟨s₁, hrun, rfl, hq₁⟩ := (hr.gives_iff s b between asked₁).mpr hfirst
      obtain ⟨s₂, hrun', rfl, hq₂⟩ := ((hnext b).gives_iff s₁ a d asked₂).mpr hsecond
      exact ⟨s₂, bind_eq_ok.mpr ⟨b, s₁, hrun, hrun'⟩, rfl, by rw [hq₂, hq₁, List.append_assoc]⟩

/-- A result that is passed on. -/
lemma pure_bind {b : β} {next : β → Run σ α} (h : Behaves (next b) result) :
    Behaves (Pure.pure b >>= next) result := h

/-- What is noted makes no difference. -/
lemma note_bind {ns : List Note} {next : Unit → Run σ α} (h : ∀ u, Behaves (next u) result) :
    Behaves (Run.note ns >>= next) result :=
  (bind (fun _ => result) (note ns) h).congr fun d a d' asked => by
    constructor
    · rintro ⟨_, _, _, _, ⟨rfl, rfl⟩, hr, rfl⟩
      exact hr
    · exact fun hr => ⟨(), d, [], asked, ⟨rfl, rfl⟩, hr, rfl⟩

/-- Both ways of a choice. -/
lemma ite {c : Prop} [Decidable c] {r r' : Run σ α} (ht : Behaves r result)
    (hf : Behaves r' result') :
    Behaves (if c then r else r') fun d a d' asked =>
      if c then result d a d' asked else result' d a d' asked := by
  split
  · exact ht
  · exact hf

end Behaves

/-- A run that only looks at the disk, and asks nothing, gives what it sees there. -/
lemma Looks.behaves {r : Run σ α} {outcome : Disk → Except Failure α} {left : Disk → List Event}
    (h : r.Looks outcome left) (hleft : ∀ d, (left d).filter Event.isQuestion = []) :
    Behaves r fun d a d' asked => outcome d = .ok a ∧ d' = d ∧ asked = [] :=
  .of_eq outcome id (fun _ => []) fun s => by
    rw [h]
    exact ⟨rfl, rfl, by simp [questions, hleft]⟩

end Run

/-! ## One source file -/

namespace Job

section

variable (job : Job) (answers : Answers) (fileName : String)

/-- What comes of the styles of a source file: how they are treated, and the style file that is
new. -/
inductive Styled : Disk → Option StyleOption × List Path → Disk → List Event → Prop
  | none {d : Disk} (h : job.task.type.carriesStyles fileName = false) :
      Styled d (none, []) d []
  | keep {d : Disk} (h : job.task.type.carriesStyles fileName = true)
      (ha : answers.style Console.stylePrompt = .ok .keep) :
      Styled d (some .keep, []) d [.askedStyle Console.stylePrompt]
  | file {d d' : Disk} {option : StyleOption} {notes : List Note} {created : Option Path}
      (h : job.task.type.carriesStyles fileName = true)
      (ha : answers.style Console.stylePrompt = .ok option) (hk : option ≠ .keep)
      (hc : createStyle d job.settings job.directory job.task.name option =
        (d', notes, .ok created)) :
      Styled d (some option, created.toList) d' [.askedStyle Console.stylePrompt]

/-- What comes of writing the override of a source file. -/
inductive Written (plan : OverridePlan) : Disk → List Path → Disk → Prop
  | failed {d : Disk} {f : Failure} (h : synthesize plan = .error f) : Written plan d [] d
  | tried {d d' : Disk} {content : String} {isNew : Bool} (h : synthesize plan = .ok content)
      (hw : writeNew d (job.targetPath fileName) content = (d', .ok isNew)) :
      Written plan d (if isNew then [job.targetPath fileName] else []) d'

/-- What comes of a source file whose exports are read. -/
inductive Overridden (source : SourceReading) : Disk → List Path → Disk → List Event → Prop
  | nothing {d d' : Disk} {answer : List ExportRecord} {style : Option StyleOption}
      {styles : List Path} {asked : List Event}
      (ha : answers.exports (Console.exportPrompt fileName) source.exports.named = .ok answer)
      (hs : Styled job answers fileName d (style, styles) d' asked)
      (hc : chosenAmong source.exports.named answer = []) :
      Overridden source d styles d'
        (.askedExports (Console.exportPrompt fileName) source.exports.named :: asked)
  | chosen {d d₁ d' : Disk} {answer : List ExportRecord} {style : Option StyleOption}
      {styles created : List Path} {asked : List Event}
      (ha : answers.exports (Console.exportPrompt fileName) source.exports.named = .ok answer)
      (hs : Styled job answers fileName d (style, styles) d₁ asked)
      (hc : chosenAmong source.exports.named answer ≠ [])
      (hw : Written job fileName
        (job.plan fileName source (chosenAmong source.exports.named answer) style) d₁ created d') :
      Overridden source d (styles ++ created) d'
        (.askedExports (Console.exportPrompt fileName) source.exports.named :: asked)

/-- What a source file holds for an override. -/
def reading (code : String) : SourceReading := readSource code fileName job.task.isTypescript

/-- **What comes of a source file.** -/
inductive Handled : Disk → List Path → Disk → List Event → Prop
  | skipped {d : Disk} (h : job.isSkipped fileName = true) : Handled d [] d []
  | present {d : Disk} (h : job.isSkipped fileName = false)
      (hp : d.exists (job.targetPath fileName) = true) : Handled d [] d []
  | bare {d : Disk} {code : String} (h : job.isSkipped fileName = false)
      (hp : d.exists (job.targetPath fileName) = false)
      (hr : readText d (job.sourcePath fileName) = .ok code)
      (hn : (job.reading fileName code).exports.named = []) : Handled d [] d []
  | overridden {d d' : Disk} {code : String} {created : List Path} {asked : List Event}
      (h : job.isSkipped fileName = false)
      (hp : d.exists (job.targetPath fileName) = false)
      (hr : readText d (job.sourcePath fileName) = .ok code)
      (hn : (job.reading fileName code).exports.named ≠ [])
      (ho : Overridden job answers fileName (job.reading fileName code) d created d' asked) :
      Handled d created d' asked

/-- **What comes of source files**, one after the other. -/
inductive HandledAll : List String → Disk → List Path → Disk → List Event → Prop
  | nil {d : Disk} : HandledAll [] d [] d []
  | cons {fileName : String} {rest : List String} {d d₁ d' : Disk} {created more : List Path}
      {asked later : List Event} (h : Handled job answers fileName d created d₁ asked)
      (hrest : HandledAll rest d₁ more d' later) :
      HandledAll (fileName :: rest) d (created ++ more) d' (asked ++ later)

end

section

variable {op : Operator σ} {answers : Answers} (hop : op.Follows answers) (job : Job)
  (fileName : String)

include hop

lemma treatStyle_behaves (h : job.task.type.carriesStyles fileName = true) :
    Run.Behaves (job.treatStyle op) fun d r d' asked =>
      Styled job answers fileName d (some r.1, r.2) d' asked := by
  unfold treatStyle
  refine (Run.Behaves.bind _ (Run.Behaves.askStyle hop _) fun option => Run.Behaves.ite
    (Run.Behaves.pure _) (Run.Behaves.bind _ (Run.Behaves.change _) fun created =>
      Run.Behaves.pure _)).congr fun d r d' asked => ⟨?_, fun hs => ?_⟩
  · rintro ⟨option, _, _, _, ⟨ha, rfl, rfl⟩, hrest, rfl⟩
    split at hrest
    · rename_i hkeep
      obtain ⟨rfl, rfl, rfl⟩ := hrest
      obtain rfl := beq_iff_eq.mp hkeep
      exact .keep h ha
    · rename_i hkeep
      obtain ⟨created, _, _, _, ⟨hc, rfl, rfl⟩, ⟨rfl, rfl, rfl⟩, rfl⟩ := hrest
      exact .file h ha (by simpa using hkeep) (Prod.ext rfl (Prod.ext rfl hc))
  · obtain ⟨option, created⟩ := r
    generalize hr : (some option, created) = outcome at hs
    cases hs with
    | none hnone => cases hr
    | keep _ ha =>
      cases hr
      exact ⟨.keep, d, _, [], ⟨ha, rfl, rfl⟩, by simp, rfl⟩
    | @file _ _ notes created' _ ha hkeep hc =>
      cases hr
      refine ⟨option, d, _, [], ⟨ha, rfl, rfl⟩, ?_, rfl⟩
      rw [if_neg (by simpa using hkeep)]
      exact ⟨created', d', [], [], by rw [hc]; exact ⟨rfl, rfl, rfl⟩, ⟨rfl, rfl, rfl⟩, rfl⟩

end

lemma writeOverride_behaves (job : Job) (fileName : String) (plan : OverridePlan) :
    Run.Behaves (job.writeOverride (σ := σ) fileName plan) fun d created d' asked =>
      Written job fileName plan d created d' ∧ asked = [] := by
  unfold writeOverride
  cases hplan : synthesize plan with
  | error f =>
    refine (Run.Behaves.note_bind fun _ => Run.Behaves.pure _).congr
      fun d created d' asked => ⟨?_, ?_⟩
    · rintro ⟨rfl, rfl, rfl⟩
      exact ⟨.failed hplan, rfl⟩
    · rintro ⟨hw, rfl⟩
      cases hw with
      | failed => exact ⟨rfl, rfl, rfl⟩
      | tried hok => rw [hplan] at hok; cases hok
  | ok content =>
    refine (Run.Behaves.bind _ (Run.Behaves.change _) fun isNew => Run.Behaves.ite
      (Run.Behaves.pure _) (Run.Behaves.note_bind fun _ => Run.Behaves.pure _)).congr
      fun d created d' asked => ⟨?_, ?_⟩
    · rintro ⟨isNew, _, _, _, ⟨hw, rfl, rfl⟩, hrest, rfl⟩
      have hwritten : Written job fileName plan d
          (if isNew then [job.targetPath fileName] else []) _ := .tried hplan (Prod.ext rfl hw)
      split at hrest
      · rename_i hnew
        obtain ⟨rfl, rfl, rfl⟩ := hrest
        rw [if_pos hnew] at hwritten
        exact ⟨hwritten, rfl⟩
      · rename_i hnew
        obtain ⟨rfl, rfl, rfl⟩ := hrest
        rw [if_neg hnew] at hwritten
        exact ⟨hwritten, rfl⟩
    · rintro ⟨hw, rfl⟩
      cases hw with
      | failed herr => rw [hplan] at herr; cases herr
      | @tried _ _ isNew hok hw =>
        rw [hplan] at hok
        cases hok
        refine ⟨isNew, d', [], [], by rw [hw]; exact ⟨rfl, rfl, rfl⟩, ?_, rfl⟩
        cases isNew with
        | true => exact ⟨rfl, rfl, rfl⟩
        | false => exact ⟨rfl, rfl, rfl⟩

/-- What comes of a source file when the questions are answered. -/
inductive Concluded (job : Job) (fileName : String) (source : SourceReading)
    (chosen : List ExportRecord) (style : Option StyleOption) (styles : List Path) :
    Disk → List Path → Disk → Prop
  | nothing {d : Disk} (hc : chosen = []) :
      Concluded job fileName source chosen style styles d styles d
  | written {d d' : Disk} {created : List Path} (hc : chosen ≠ [])
      (hw : Written job fileName (job.plan fileName source chosen style) d created d') :
      Concluded job fileName source chosen style styles d (styles ++ created) d'

lemma conclusion_behaves (job : Job) (fileName : String) (source : SourceReading)
    (chosen : List ExportRecord) (style : Option StyleOption) (styles : List Path) :
    Run.Behaves
      (if chosen.isEmpty then do
        Run.note [.caution ("Nothing was chosen to extend in " ++ fileName ++ ", skipping.")]
        return styles
      else do
        let created ← job.writeOverride fileName (job.plan fileName source chosen style)
        return styles ++ created : Run σ (List Path))
      fun d created d' asked =>
        Concluded job fileName source chosen style styles d created d' ∧ asked = [] := by
  cases hchosen : chosen.isEmpty with
  | true =>
    have hnil : chosen = [] := List.isEmpty_iff.mp hchosen
    refine (Run.Behaves.note_bind fun _ => Run.Behaves.pure _).congr
      fun d created d' asked => ⟨?_, ?_⟩
    · rintro ⟨rfl, rfl, rfl⟩
      exact ⟨.nothing hnil, rfl⟩
    · rintro ⟨hc, rfl⟩
      cases hc with
      | nothing => exact ⟨rfl, rfl, rfl⟩
      | written hne => exact absurd hnil hne
  | false =>
    have hne : chosen ≠ [] := fun he => by simp [he] at hchosen
    refine (Run.Behaves.bind _ (writeOverride_behaves job fileName _) fun _ =>
      Run.Behaves.pure _).congr fun d created d' asked => ⟨?_, ?_⟩
    · rintro ⟨_, _, _, _, ⟨hw, rfl⟩, ⟨rfl, rfl, rfl⟩, rfl⟩
      exact ⟨.written hne hw, rfl⟩
    · rintro ⟨hc, rfl⟩
      cases hc with
      | nothing hnil => exact absurd hnil hne
      | written _ hw => exact ⟨_, d', [], [], ⟨hw, rfl⟩, ⟨rfl, rfl, rfl⟩, rfl⟩

section

variable {op : Operator σ} {answers : Answers} (hop : op.Follows answers) (job : Job)
  (fileName : String)

include hop

lemma override_behaves (source : SourceReading) :
    Run.Behaves (job.override op fileName source) (Overridden job answers fileName source) := by
  unfold override
  dsimp only
  refine (Run.Behaves.bind (fun answer d created d' asked => ∃ style styles d₁,
      Styled job answers fileName d (style, styles) d₁ asked ∧
        Concluded job fileName source (chosenAmong source.exports.named answer) style styles d₁
          created d')
    (Run.Behaves.askExports hop _ _) fun answer => ?_).congr fun d created d' asked => ⟨?_, ?_⟩
  · generalize chosenAmong source.exports.named answer = chosen
    cases hcarries : job.task.type.carriesStyles fileName with
    | true =>
      refine (Run.Behaves.bind (fun r d created d' asked =>
          Concluded job fileName source chosen (some r.1) r.2 d created d' ∧ asked = [])
        (treatStyle_behaves hop job fileName hcarries) fun r => Run.Behaves.pure_bind <|
          conclusion_behaves job fileName source chosen (some r.1) r.2).congr
        fun d created d' asked => ⟨?_, ?_⟩
      · rintro ⟨r, d₁, asked, _, hs, ⟨hc, rfl⟩, rfl⟩
        exact ⟨some r.1, r.2, d₁, by rwa [List.append_nil], hc⟩
      · rintro ⟨style, styles, d₁, hs, hc⟩
        cases hs with
        | none hnone => rw [hcarries] at hnone; cases hnone
        | keep _ ha => exact ⟨(_, _), _, _, [], .keep hcarries ha, ⟨hc, rfl⟩, rfl⟩
        | file _ ha hk hs => exact ⟨(_, _), _, _, [], .file hcarries ha hk hs, ⟨hc, rfl⟩, rfl⟩
    | false =>
      refine (Run.Behaves.pure_bind <|
        conclusion_behaves job fileName source chosen none []).congr
        fun d created d' asked => ⟨?_, ?_⟩
      · rintro ⟨hc, rfl⟩
        exact ⟨none, [], d, .none hcarries, hc⟩
      · rintro ⟨style, styles, d₁, hs, hc⟩
        cases hs with
        | none => exact ⟨hc, rfl⟩
        | keep hyes => rw [hcarries] at hyes; cases hyes
        | file hyes => rw [hcarries] at hyes; cases hyes
  · rintro ⟨answer, _, _, asked, ⟨ha, rfl, rfl⟩, ⟨style, styles, d₁, hs, hc⟩, rfl⟩
    cases hc with
    | nothing hnil => exact .nothing ha hs hnil
    | written hne hw => exact .chosen ha hs hne hw
  · intro ho
    cases ho with
    | nothing ha hs hnil => exact ⟨_, d, _, _, ⟨ha, rfl, rfl⟩, ⟨_, _, _, hs, .nothing hnil⟩, rfl⟩
    | chosen ha hs hne hw =>
      exact ⟨_, d, _, _, ⟨ha, rfl, rfl⟩, ⟨_, _, _, hs, .written hne hw⟩, rfl⟩

/-- **A source file is handled as the relation says.** -/
theorem handle_behaves :
    Run.Behaves (job.handle op fileName) (Handled job answers fileName) := by
  have hnone : ∀ ns : List Note, Run.Behaves (do Run.note ns; return [] : Run σ (List Path))
      fun d created d' asked => created = [] ∧ d' = d ∧ asked = [] := fun ns =>
    (Run.Behaves.note_bind fun _ => Run.Behaves.pure _).congr fun _ _ _ _ => by rw [eq_comm]
  unfold handle
  cases hskip : job.isSkipped fileName with
  | true =>
    refine (hnone _).congr fun d created d' asked => ⟨?_, fun hh => ?_⟩
    · rintro ⟨rfl, rfl, rfl⟩
      exact .skipped hskip
    · cases hh with
      | skipped => exact ⟨rfl, rfl, rfl⟩
      | present hno => rw [hskip] at hno; cases hno
      | bare hno => rw [hskip] at hno; cases hno
      | overridden hno => rw [hskip] at hno; cases hno
  | false =>
    -- what follows the note on errors
    have hrest : ∀ code, Run.Behaves
        (if (job.reading fileName code).exports.named.isEmpty then do
          Run.note [.caution ("No named exports were found in " ++ fileName ++ ", continuing.")]
          return []
        else job.override op fileName (job.reading fileName code))
        (fun d created d' asked =>
          if (job.reading fileName code).exports.named.isEmpty then
            created = [] ∧ d' = d ∧ asked = []
          else Overridden job answers fileName (job.reading fileName code) d created d' asked) :=
      fun code => Run.Behaves.ite (hnone _) (override_behaves hop job fileName _)
    refine (Run.Behaves.bind _ Run.Behaves.disk fun d => Run.Behaves.ite (hnone _)
      (Run.Behaves.bind (fun code d created d' asked =>
          if (job.reading fileName code).exports.named.isEmpty then
            created = [] ∧ d' = d ∧ asked = []
          else Overridden job answers fileName (job.reading fileName code) d created d' asked)
        (Run.Behaves.ofExcept _) fun code => ?_)).congr
      fun d created d' asked => ⟨?_, fun hh => ⟨d, d, [], asked, ⟨rfl, rfl, rfl⟩, ?_, rfl⟩⟩
    · dsimp only
      split
      · exact Run.Behaves.note_bind fun _ => hrest code
      · exact hrest code
    · rintro ⟨_, _, _, _, ⟨rfl, rfl, rfl⟩, hh, rfl⟩
      split at hh
      · rename_i hp
        obtain ⟨rfl, rfl, rfl⟩ := hh
        exact .present hskip hp
      · rename_i hp
        rw [Bool.not_eq_true] at hp
        obtain ⟨code, _, _, _, ⟨hr, rfl, rfl⟩, hh, rfl⟩ := hh
        split at hh
        · rename_i hn
          obtain ⟨rfl, rfl, rfl⟩ := hh
          exact .bare hskip hp hr (List.isEmpty_iff.mp hn)
        · rename_i hn
          exact .overridden hskip hp hr (fun he => hn (by simp [he])) hh
    · cases hh with
      | skipped hyes => rw [hskip] at hyes; cases hyes
      | present _ hp =>
        rw [if_pos hp]
        exact ⟨rfl, rfl, rfl⟩
      | bare _ hp hr hn =>
        rw [if_neg (by simp [hp])]
        exact ⟨_, d, [], [], ⟨hr, rfl, rfl⟩, by simp [hn], rfl⟩
      | overridden _ hp hr hn ho =>
        rw [if_neg (by simp [hp])]
        refine ⟨_, d, [], asked, ⟨hr, rfl, rfl⟩, ?_, rfl⟩
        rwa [if_neg (by simpa using hn)]

/-- **Source files are handled as the relation says.** -/
theorem handleAll_behaves (files : List String) :
    Run.Behaves (job.handleAll op files) (HandledAll job answers files) := by
  induction files with
  | nil =>
    unfold handleAll
    refine (Run.Behaves.pure _).congr fun d created d' asked => ⟨?_, ?_⟩
    · rintro ⟨rfl, rfl, rfl⟩
      exact .nil
    · intro hh
      cases hh
      exact ⟨rfl, rfl, rfl⟩
  | cons fileName rest ih =>
    unfold handleAll
    refine (Run.Behaves.bind _ (handle_behaves hop job fileName) fun created =>
      Run.Behaves.bind _ ih fun more => Run.Behaves.pure _).congr
      fun d created d' asked => ⟨?_, ?_⟩
    · rintro ⟨created, d₁, asked₁, _, hh, ⟨more, d₂, asked₂, _, hrest, ⟨rfl, rfl, rfl⟩, rfl⟩, rfl⟩
      rw [List.append_nil]
      exact .cons hh hrest
    · intro hh
      cases hh with
      | cons h hrest =>
        exact ⟨_, _, _, _, h, ⟨_, _, _, [], hrest, ⟨rfl, rfl, rfl⟩, rfl⟩, by simp⟩

end

/-! ## What turns keep -/

section

variable {job : Job} {answers : Answers} {fileName : String} {d d' : Disk} {created : List Path}
  {asked : List Event} (rel : Disk → Disk → Prop) (hrefl : ∀ d, rel d d)
  (htrans : ∀ {d d₁ d₂}, rel d d₁ → rel d₁ d₂ → rel d d₂)

section

variable
  (hstyle : job.task.type.carriesStyles fileName = true → ∀ d option,
    rel d (createStyle d job.settings job.directory job.task.name option).1)
  (hwrite : ∀ d content, rel d (writeNew d (job.targetPath fileName) content).1)

include hrefl hstyle in
lemma Styled.preserves {r : Option StyleOption × List Path}
    (h : Styled job answers fileName d r d' asked) : rel d d' := by
  cases h with
  | none => exact hrefl d
  | keep => exact hrefl d
  | @file _ option notes created hcarries _ _ hc =>
    have hkept := hstyle hcarries d option
    rwa [hc] at hkept

include hrefl hwrite in
lemma Written.preserves {plan : OverridePlan} (h : Written job fileName plan d created d') :
    rel d d' := by
  cases h with
  | failed => exact hrefl d
  | @tried _ content _ _ hw =>
    have hkept := hwrite d content
    rwa [hw] at hkept

include hrefl htrans hstyle hwrite

lemma Overridden.preserves {source : SourceReading}
    (h : Overridden job answers fileName source d created d' asked) : rel d d' := by
  cases h with
  | nothing _ hs => exact hs.preserves rel hrefl hstyle
  | chosen _ hs _ hw => exact htrans (hs.preserves rel hrefl hstyle) (hw.preserves rel hrefl hwrite)

lemma Handled.preserves (h : Handled job answers fileName d created d' asked) : rel d d' := by
  cases h with
  | skipped => exact hrefl d
  | present => exact hrefl d
  | bare => exact hrefl d
  | overridden _ _ _ _ ho => exact ho.preserves rel hrefl htrans hstyle hwrite

end

include hrefl htrans in
/-- **What the writers keep is kept by a whole run** over source files. -/
theorem HandledAll.preserves {files : List String}
    (hstyle : ∀ f ∈ files, job.task.type.carriesStyles f = true → ∀ d option,
      rel d (createStyle d job.settings job.directory job.task.name option).1)
    (hwrite : ∀ f ∈ files, ∀ d content, rel d (writeNew d (job.targetPath f) content).1)
    (h : HandledAll job answers files d created d' asked) : rel d d' := by
  induction h with
  | nil => exact hrefl _
  | cons h _ ih =>
    have hfirst := h.preserves rel hrefl htrans (hstyle _ List.mem_cons_self)
      (hwrite _ List.mem_cons_self)
    exact htrans hfirst (ih (fun f hf => hstyle f (List.mem_cons_of_mem _ hf))
      fun f hf => hwrite f (List.mem_cons_of_mem _ hf))

end

section

variable {job : Job} {answers : Answers} {fileName : String} {d d' : Disk} {created : List Path}
  {asked : List Event} {files : List String}

lemma extends_createStyle (d : Disk) (option : StyleOption) :
    d.Extends (createStyle d job.settings job.directory job.task.name option).1 :=
  (createStyle_grows d _ _ _ option).1

lemma extends_writeNew (fileName : String) (d : Disk) (content : String) :
    d.Extends (writeNew d (job.targetPath fileName) content).1 :=
  (writeNew_grows d _ content).keeps

lemma Styled.extension {r : Option StyleOption × List Path}
    (h : Styled job answers fileName d r d' asked) : d.Extends d' :=
  h.preserves Disk.Extends .refl fun _ => extends_createStyle

lemma Written.extension {plan : OverridePlan} (h : Written job fileName plan d created d') :
    d.Extends d' :=
  h.preserves Disk.Extends .refl (extends_writeNew fileName)

lemma Handled.extension (h : Handled job answers fileName d created d' asked) : d.Extends d' :=
  h.preserves Disk.Extends .refl .trans (fun _ => extends_createStyle) (extends_writeNew fileName)

lemma HandledAll.extension (h : HandledAll job answers files d created d' asked) : d.Extends d' :=
  h.preserves Disk.Extends .refl .trans (fun _ _ _ => extends_createStyle)
    fun f _ => extends_writeNew f

/-- **A run over source files only adds to a disk.** -/
theorem HandledAll.adds (h : HandledAll job answers files d created d' asked) (hd : d.Proper)
    (hp : job.directory.Proper) : d.Adds d' := by
  exact h.preserves (fun d d' => d.Proper → d.Adds d')
    (fun d _ => .refl d) (fun h h' hd => (h hd).trans (h' ((h hd).proper hd)))
    (fun _ _ _ d option hd => createStyle_adds hd _ hp _ option)
    (fun f _ d content hd => writeNew_adds hd (hp.child _) content) hd

end

end Job

/-! ## The whole run -/

section

variable (settings : Settings) (task : Task)

/-- What comes of what was found: nothing, or what comes of the files of the job. -/
inductive Finished (answers : Answers) :
    Option (Job × List String) → Disk → List String → Disk → List Event → Prop
  | nothing {d : Disk} : Finished answers none d [] d []
  | handled {d d' : Disk} {job : Job} {files : List String} {created : List Path}
      {asked : List Event} (h : job.HandledAll answers files d created d' asked) :
      Finished answers (some (job, files)) d (created.map Path.toString) d' asked

/-- **What comes of a run.** -/
inductive Extended (answers : Answers) : Disk → List String → Disk → List Event → Prop
  | intro {d d' : Disk} {target : Module} {found : Option (Job × List String)}
      {created : List String} {asked : List Event}
      (ht : moduleAt d settings task.target = .ok target)
      (hp : Prepared settings task target d found)
      (hf : Finished answers found d created d' asked) : Extended answers d created d' asked

variable {settings task}

lemma prepare_behaves (target : Module) :
    Run.Behaves (prepare (σ := σ) settings task target) fun d r d' asked =>
      Prepared settings task target d r ∧ d' = d ∧ asked = [] :=
  (prepare_looks.behaves fun _ => filter_isQuestion_noted _).congr fun _ _ _ _ =>
    and_congr_left' prepared_iff.symm

/-- The report of a tidier makes no difference to what a run gives, and is no question. -/
lemma reportTidying_behaves (report : TidyReport) (created : List String) :
    Run.Behaves (reportTidying report created : Run σ (List String))
      fun d r d' asked => created = r ∧ d' = d ∧ asked = [] :=
  ((reportTidying_looks report created).behaves fun _ => report.filter_isQuestion_events).congr
    fun _ _ _ _ => by rw [Except.ok.injEq]

/-- A run only adds to the disk. -/
lemma Extended.extension {answers : Answers} {d d' : Disk} {created : List String}
    {asked : List Event} (h : Extended settings task answers d created d' asked) :
    d.Extends d' := by
  cases h with
  | intro _ _ hf =>
    cases hf with
    | nothing => exact .refl d
    | handled hh => exact hh.extension

/-- **A run goes as the relation says**, whatever tidies the created files. -/
theorem extend_behaves {op : Operator σ} {answers : Answers} (hop : op.Follows answers)
    (tidier : Tidier) (settings : Settings) (task : Task) :
    Run.Behaves (extend op tidier settings task) (Extended settings task answers) := by
  unfold extend
  refine (Run.Behaves.bind _ Run.Behaves.disk fun d => Run.Behaves.bind _
    (Run.Behaves.ofExcept _) fun target => Run.Behaves.bind (Finished answers)
      (prepare_behaves target) fun found => ?_).congr fun d created d' asked => ⟨?_, ?_⟩
  · split
    · refine (Run.Behaves.pure _).congr fun d created d' asked => ⟨?_, fun hf => ?_⟩
      · rintro ⟨rfl, rfl, rfl⟩
        exact .nothing
      · cases hf
        exact ⟨rfl, rfl, rfl⟩
    · rename_i job files
      refine (Run.Behaves.note_bind fun _ => Run.Behaves.bind _
        (job.handleAll_behaves hop files) fun paths =>
          reportTidying_behaves (tidier settings target.root (paths.map Path.toString))
            (paths.map Path.toString)).congr
        fun d created d' asked => ⟨?_, fun hf => ?_⟩
      · rintro ⟨paths, _, _, _, hh, ⟨rfl, rfl, rfl⟩, rfl⟩
        rw [List.append_nil]
        exact .handled hh
      · cases hf with
        | handled hh => exact ⟨_, _, _, [], hh, ⟨rfl, rfl, rfl⟩, by simp⟩
  · rintro ⟨_, _, _, _, ⟨rfl, rfl, rfl⟩, ⟨target, _, _, _, ⟨ht, rfl, rfl⟩, ⟨found, _, _, _,
      ⟨hp, rfl, rfl⟩, hf, rfl⟩, rfl⟩, rfl⟩
    exact .intro ht hp hf
  · rintro ⟨ht, hp, hf⟩
    exact ⟨d, d, [], asked, ⟨rfl, rfl, rfl⟩, ⟨_, d, [], asked, ⟨ht, rfl, rfl⟩, ⟨_, d, [], asked,
      ⟨hp, rfl, rfl⟩, hf, rfl⟩, rfl⟩, rfl⟩

/-- Where the resource is found, a run gives what comes of its files. -/
lemma exists_extend {op : Operator σ} {answers : Answers} (hop : op.Follows answers)
    (tidier : Tidier) {d : Disk} {o : σ} {target : Module} {job : Job} {files : List String}
    {created : List Path} (ht : moduleAt d settings task.target = .ok target)
    (hp : Prepared settings task target d (some (job, files)))
    (h : (job.handleAll op files ⟨d, o, []⟩).1 = .ok created) :
    ∃ s, extend op tidier settings task ⟨d, o, []⟩ = (.ok (created.map Path.toString), s) ∧
      s.disk = (job.handleAll op files ⟨d, o, []⟩).2.disk ∧
      Run.questions s = Run.questions (job.handleAll op files ⟨d, o, []⟩).2 := by
  obtain ⟨asked, hasked, hh⟩ := (job.handleAll_behaves hop files).of_run (Prod.ext h rfl)
  obtain ⟨s, hrun, hdisk, hquestions⟩ := (extend_behaves hop tidier settings task).exists_run
    (s := ⟨d, o, []⟩) (.intro ht hp (.handled hh))
  exact ⟨s, hrun, hdisk, hquestions.trans hasked.symm⟩

end

end ThemeOverride
