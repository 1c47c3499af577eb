import Mathlib.Tactic.Lemma
import ThemeOverride.Proofs.Run.Turns

/-!
# Transcripts of runs

What a run asks, with the answers, and what it writes, in the order in which it does so, is its
transcript. For every operator, also one with a memory, and for every end of a run, also a failure,
what comes of the run is told by the disk before it and by its transcript.

## Main definitions

* `ThemeOverride.Moment` — a question with its answer, or a file that is written.
* `ThemeOverride.Operator.Gives` — an operator gives the answers of a transcript.
* `ThemeOverride.Run.Tells` — a run goes as a story says that has a transcript.
* `ThemeOverride.Job.Told`, `ThemeOverride.Job.ToldAll`, `ThemeOverride.Told` — the stories of a
  source file, of source files one after the other, and of a whole run.

## Main results

* `ThemeOverride.Run.Tells.bind` — the story of one run after another.
* `ThemeOverride.extend_tells` — every run goes as its story says.

## Design

The relations of `ThemeOverride.Job.Handled` say what comes of a run exactly, for operators who
always answer alike. A story is told for every operator and also of a run that fails, but it is told
of a run that was made: there is no converse.
-/

namespace ThemeOverride

variable {σ α β : Type}

/-- What happens in a run that others can see: a question with its answer, or a file that was not
there and is written. -/
inductive Moment where
  | exports (prompt : String) (offered : List ExportRecord)
      (answer : Except Failure (List ExportRecord))
  | style (prompt : String) (answer : Except Failure StyleOption)
  | wrote (path : Path) (text : String)

namespace Moment

/-- The question that is asked. -/
def question? : Moment → Option Event
  | exports prompt offered _ => some (.askedExports prompt offered)
  | style prompt _ => some (.askedStyle prompt)
  | wrote _ _ => none

/-- The path of the file that is written. -/
def written? : Moment → Option Path
  | wrote path _ => some path
  | exports _ _ _ | style _ _ => none

/-- The moment at which a file is written, if it was not there. -/
def ofWrite (path : Path) (text : String) : Except Failure Bool → List Moment
  | .ok true => [wrote path text]
  | _ => []

lemma question?_ofWrite (path : Path) (text : String) (result : Except Failure Bool) :
    (ofWrite path text result).filterMap question? = [] := by
  unfold ofWrite
  split <;> rfl

lemma written?_ofWrite (path : Path) (text : String) (result : Except Failure Bool) :
    (ofWrite path text result).filterMap written? = newAt path result := by
  cases result with
  | error f => rfl
  | ok isNew => cases isNew <;> rfl

lemma mem_ofWrite {path : Path} {text : String} {result : Except Failure Bool} {m : Moment}
    (h : m ∈ ofWrite path text result) : m = wrote path text ∧ result = .ok true := by
  unfold ofWrite at h
  split at h
  · exact ⟨List.mem_singleton.mp h, rfl⟩
  · cases h

end Moment

/-- The questions of a transcript. -/
def questionsIn (transcript : List Moment) : List Event := transcript.filterMap Moment.question?

/-- The paths of the files that are written in a transcript. -/
def writtenIn (transcript : List Moment) : List Path := transcript.filterMap Moment.written?

/-- **An operator gives the answers of a transcript**, one after the other, and is changed by
that. -/
inductive Operator.Gives (op : Operator σ) : List Moment → σ → σ → Prop
  | nil (o : σ) : Gives op [] o o
  | exports {o o₁ o' : σ} {prompt : String} {offered : List ExportRecord}
      {answer : Except Failure (List ExportRecord)} {rest : List Moment}
      (h : op.exports prompt offered o = (answer, o₁)) (hrest : Gives op rest o₁ o') :
      Gives op (.exports prompt offered answer :: rest) o o'
  | style {o o₁ o' : σ} {prompt : String} {answer : Except Failure StyleOption}
      {rest : List Moment} (h : op.style prompt o = (answer, o₁)) (hrest : Gives op rest o₁ o') :
      Gives op (.style prompt answer :: rest) o o'
  | wrote {o o' : σ} {path : Path} {text : String} {rest : List Moment}
      (hrest : Gives op rest o o') : Gives op (.wrote path text :: rest) o o'

lemma Operator.Gives.append {op : Operator σ} {xs ys : List Moment} {o o₁ o' : σ}
    (h : op.Gives xs o o₁) (h' : op.Gives ys o₁ o') : op.Gives (xs ++ ys) o o' := by
  induction h with
  | nil => exact h'
  | exports h _ ih => exact .exports h (ih h')
  | style h _ ih => exact .style h (ih h')
  | wrote _ ih => exact .wrote (ih h')

lemma Operator.Gives.ofWrite (op : Operator σ) (path : Path) (text : String)
    (result : Except Failure Bool) (o : σ) : op.Gives (Moment.ofWrite path text result) o o := by
  unfold Moment.ofWrite
  split
  · exact .wrote (.nil o)
  · exact .nil o

namespace Run

/-- What may come of a run: its result or failure, the disk, and a transcript, from the disk before
it. -/
abbrev Story (α : Type) := Disk → Except Failure α → Disk → List Moment → Prop

/-- **A run goes as a story says.** It has a transcript with the questions that are asked, of which
the operator gives the answers. -/
def Tells (op : Operator σ) (r : Run σ α) (story : Story α) : Prop :=
  ∀ s, ∃ transcript, story s.disk (r s).1 (r s).2.disk transcript ∧
    op.Gives transcript s.operator (r s).2.operator ∧
    questions (r s).2 = questions s ++ questionsIn transcript

namespace Tells

variable {op : Operator σ} {story : Story α}

lemma mono {r : Run σ α} {story' : Story α} (h : Tells op r story)
    (himp : ∀ d result d' transcript, story d result d' transcript → story' d result d' transcript) :
    Tells op r story' := by
  intro s
  obtain ⟨transcript, hstory, hrest⟩ := h s
  exact ⟨transcript, himp _ _ _ _ hstory, hrest⟩

/-- A run that asks nothing. -/
lemma of_quiet {r : Run σ α}
    (h : ∀ s, story s.disk (r s).1 (r s).2.disk [] ∧ (r s).2.operator = s.operator ∧
      questions (r s).2 = questions s) : Tells op r story := by
  intro s
  obtain ⟨hstory, hoperator, hquestions⟩ := h s
  refine ⟨[], hstory, ?_, by rw [hquestions]; exact (List.append_nil _).symm⟩
  rw [hoperator]
  exact .nil _

protected lemma pure {a : α} (h : ∀ d, story d (.ok a) d []) :
    Tells op (pure a : Run σ α) story :=
  of_quiet fun s => ⟨h s.disk, rfl, rfl⟩

lemma ofExcept {e : Except Failure α} (h : ∀ d, story d e d []) :
    Tells op (ofExcept e : Run σ α) story :=
  of_quiet fun s => ⟨h s.disk, rfl, rfl⟩

/-- **One run after another.** The story ends where the first run fails, and goes on with the second
otherwise. -/
protected theorem bind {r : Run σ β} {next : β → Run σ α} (first : Story β)
    (second : β → Story α) (hr : Tells op r first) (hnext : ∀ b, Tells op (next b) (second b))
    (hfail : ∀ d f d' xs, first d (.error f) d' xs → story d (.error f) d' xs)
    (hok : ∀ d b d₁ xs result d' ys, first d (.ok b) d₁ xs → second b d₁ result d' ys →
      story d result d' (xs ++ ys)) :
    Tells op (r >>= next) story := by
  intro s
  obtain ⟨xs, hfirst, hgives, hquestions⟩ := hr s
  change ∃ transcript, story s.disk (Run.bind r next s).1 (Run.bind r next s).2.disk transcript ∧
    op.Gives transcript s.operator (Run.bind r next s).2.operator ∧
    questions (Run.bind r next s).2 = questions s ++ questionsIn transcript
  unfold Run.bind
  cases hrun : r s with
  | mk result between =>
    rw [hrun] at hfirst hgives hquestions
    dsimp only at hfirst hgives hquestions
    cases result with
    | error f => exact ⟨xs, hfail _ _ _ _ hfirst, hgives, hquestions⟩
    | ok b =>
      obtain ⟨ys, hsecond, hgives', hquestions'⟩ := hnext b between
      refine ⟨xs ++ ys, hok _ _ _ _ _ _ _ hfirst hsecond, hgives.append hgives', ?_⟩
      dsimp only
      rw [hquestions', hquestions, List.append_assoc]
      simp only [questionsIn, List.filterMap_append]

/-- What is noted makes no difference. -/
lemma note_bind {ns : List Note} {next : Unit → Run σ α} (h : Tells op (next ()) story) :
    Tells op (Run.note ns >>= next) story := by
  intro s
  obtain ⟨transcript, hstory, hgives, hquestions⟩ :=
    h { s with events := s.events ++ ns.map .noted }
  refine ⟨transcript, hstory, hgives, hquestions.trans ?_⟩
  rw [questions_noted]

/-- What comes of a run that looks at the disk. -/
lemma disk_bind {next : Disk → Run σ α} (h : ∀ d, Tells op (next d) fun d₀ result d' transcript =>
    d₀ = d → story d₀ result d' transcript) : Tells op (Run.disk >>= next) story := by
  intro s
  obtain ⟨transcript, hstory, hrest⟩ := h s.disk s
  exact ⟨transcript, hstory rfl, hrest⟩

/-- What comes of a run that goes on with a result, unless that is a failure. -/
lemma ofExcept_bind {e : Except Failure β} {next : β → Run σ α}
    (hfail : ∀ f, e = .error f → ∀ d, story d (.error f) d [])
    (hok : ∀ b, e = .ok b → Tells op (next b) story) :
    Tells op (Run.ofExcept e >>= next) story := by
  cases e with
  | error f => exact of_quiet fun s => ⟨hfail f rfl s.disk, rfl, rfl⟩
  | ok b => exact hok b rfl

lemma askExports (op : Operator σ) (prompt : String) (offered : List ExportRecord) :
    Tells op (Run.askExports op prompt offered) fun d result d' transcript =>
      d' = d ∧ transcript = [.exports prompt offered result] := fun _ =>
  ⟨_, ⟨rfl, rfl⟩, .exports rfl (.nil _), List.filter_append _ _⟩

lemma askStyle (op : Operator σ) (prompt : String) :
    Tells op (Run.askStyle op prompt) fun d result d' transcript =>
      d' = d ∧ transcript = [.style prompt result] := fun _ =>
  ⟨_, ⟨rfl, rfl⟩, .style rfl (.nil _), List.filter_append _ _⟩

/-- A file is written if it is not there. -/
lemma write {f : Disk → Disk × List Note × Except Failure α} {path : Path} {text : String}
    (h : ∀ d, (f d).1 = (writeNew d path text).1) :
    Tells op (Run.change f) fun d result d' transcript => result = (f d).2.2 ∧
      d' = (writeNew d path text).1 ∧
      transcript = Moment.ofWrite path text (writeNew d path text).2 := by
  intro s
  refine ⟨_, ⟨rfl, h s.disk, rfl⟩, .ofWrite op path text _ _, ?_⟩
  simp [Run.change, questions, filter_isQuestion_noted, questionsIn, Moment.question?_ofWrite]

/-- Both ways of a choice. -/
lemma ite {c : Prop} [Decidable c] {r r' : Run σ α} (ht : c → Tells op r story)
    (hf : ¬ c → Tells op r' story) : Tells op (if c then r else r') story := by
  split
  · rename_i h
    exact ht h
  · rename_i h
    exact hf h

end Tells

/-- A run that only looks at the disk, and asks nothing, tells what it sees there. -/
lemma Looks.tells {r : Run σ α} {outcome : Disk → Except Failure α} {left : Disk → List Event}
    (h : r.Looks outcome left) (op : Operator σ)
    (hleft : ∀ d, (left d).filter Event.isQuestion = []) :
    Tells op r fun d result d' transcript => result = outcome d ∧ d' = d ∧ transcript = [] :=
  .of_quiet fun s => by
    rw [h]
    exact ⟨⟨rfl, rfl, rfl⟩, rfl, by simp [questions, hleft]⟩

end Run

/-! ## One source file -/

namespace Job

section

variable (job : Job) (fileName : String)

/-- The story of the styles of a source file: how they are treated, and the style file that is
new. -/
inductive ToldStyle : Run.Story (Option StyleOption × List Path)
  | none {d : Disk} (h : job.task.type.carriesStyles fileName = false) :
      ToldStyle d (.ok (none, [])) d []
  | unanswered {d : Disk} {f : Failure} (h : job.task.type.carriesStyles fileName = true) :
      ToldStyle d (.error f) d [.style Console.stylePrompt (.error f)]
  | keep {d : Disk} (h : job.task.type.carriesStyles fileName = true) :
      ToldStyle d (.ok (some .keep, [])) d [.style Console.stylePrompt (.ok .keep)]
  | file {d d' : Disk} {option : StyleOption} {text : String} {written : Except Failure Bool}
      (h : job.task.type.carriesStyles fileName = true)
      (ht : option.render? job.task.name = some text)
      (hw : writeNew d (stylePath job.settings job.directory job.task.name) text = (d', written)) :
      ToldStyle d
        (written.map fun isNew =>
          (some option, if isNew then [stylePath job.settings job.directory job.task.name] else []))
        d' (.style Console.stylePrompt (.ok option) ::
          Moment.ofWrite (stylePath job.settings job.directory job.task.name) text written)

/-- The story of writing the override of a source file. -/
inductive ToldWrite (plan : OverridePlan) : Run.Story (List Path)
  | failed {d : Disk} {f : Failure} (h : synthesize plan = .error f) : ToldWrite plan d (.ok []) d []
  | tried {d d' : Disk} {text : String} {written : Except Failure Bool}
      (h : synthesize plan = .ok text)
      (hw : writeNew d (job.targetPath fileName) text = (d', written)) :
      ToldWrite plan d (written.map fun isNew => if isNew then [job.targetPath fileName] else []) d'
        (Moment.ofWrite (job.targetPath fileName) text written)

/-- The story of a source file whose exports are read. -/
inductive ToldOverride (source : SourceReading) : Run.Story (List Path)
  | unanswered {d : Disk} {f : Failure} :
      ToldOverride source d (.error f) d
        [.exports (Console.exportPrompt fileName) source.exports.named (.error f)]
  | stopped {d d' : Disk} {answer : List ExportRecord} {f : Failure} {styling : List Moment}
      (hs : ToldStyle job fileName d (.error f) d' styling) :
      ToldOverride source d (.error f) d'
        (.exports (Console.exportPrompt fileName) source.exports.named (.ok answer) :: styling)
  | nothing {d d' : Disk} {answer : List ExportRecord} {style : Option StyleOption}
      {styles : List Path} {styling : List Moment}
      (hs : ToldStyle job fileName d (.ok (style, styles)) d' styling)
      (hc : chosenAmong source.exports.named answer = []) :
      ToldOverride source d (.ok styles) d'
        (.exports (Console.exportPrompt fileName) source.exports.named (.ok answer) :: styling)
  | chosen {d d₁ d' : Disk} {answer : List ExportRecord} {style : Option StyleOption}
      {styles : List Path} {styling writing : List Moment} {result : Except Failure (List Path)}
      (hs : ToldStyle job fileName d (.ok (style, styles)) d₁ styling)
      (hc : chosenAmong source.exports.named answer ≠ [])
      (hw : ToldWrite job fileName
        (job.plan fileName source (chosenAmong source.exports.named answer) style) d₁ result d'
        writing) :
      ToldOverride source d (result.map (styles ++ ·)) d'
        (.exports (Console.exportPrompt fileName) source.exports.named (.ok answer) ::
          (styling ++ writing))

/-- **The story of a source file.** -/
inductive Told : Run.Story (List Path)
  | skipped {d : Disk} (h : job.isSkipped fileName = true) : Told d (.ok []) d []
  | present {d : Disk} (h : job.isSkipped fileName = false)
      (hp : d.exists (job.targetPath fileName) = true) : Told d (.ok []) d []
  | unread {d : Disk} {f : Failure} (h : job.isSkipped fileName = false)
      (hp : d.exists (job.targetPath fileName) = false)
      (hr : readText d (job.sourcePath fileName) = .error f) : Told d (.error f) d []
  | bare {d : Disk} {code : String} (h : job.isSkipped fileName = false)
      (hp : d.exists (job.targetPath fileName) = false)
      (hr : readText d (job.sourcePath fileName) = .ok code)
      (hn : (job.reading fileName code).exports.named = []) : Told d (.ok []) d []
  | overridden {d d' : Disk} {code : String} {result : Except Failure (List Path)}
      {transcript : List Moment} (h : job.isSkipped fileName = false)
      (hp : d.exists (job.targetPath fileName) = false)
      (hr : readText d (job.sourcePath fileName) = .ok code)
      (hn : (job.reading fileName code).exports.named ≠ [])
      (ho : ToldOverride job fileName (job.reading fileName code) d result d' transcript) :
      Told d result d' transcript

/-- **The story of source files**, one after the other, perhaps up to one that fails. -/
inductive ToldAll : List String → Run.Story (List Path)
  | nil {d : Disk} : ToldAll [] d (.ok []) d []
  | stopped {fileName : String} {rest : List String} {d d' : Disk} {f : Failure}
      {transcript : List Moment} (h : Told job fileName d (.error f) d' transcript) :
      ToldAll (fileName :: rest) d (.error f) d' transcript
  | cons {fileName : String} {rest : List String} {d d₁ d' : Disk} {created : List Path}
      {result : Except Failure (List Path)} {transcript later : List Moment}
      (h : Told job fileName d (.ok created) d₁ transcript)
      (hrest : ToldAll rest d₁ result d' later) :
      ToldAll (fileName :: rest) d (result.map (created ++ ·)) d' (transcript ++ later)

end

section

variable (op : Operator σ) (job : Job) (fileName : String)

/-- A style file that is asked for is written if it is not there. -/
lemma createStyle_eq {option : StyleOption} {text : String}
    (h : option.render? job.task.name = some text) (d : Disk) :
    (createStyle d job.settings job.directory job.task.name option).1 =
        (writeNew d (stylePath job.settings job.directory job.task.name) text).1 ∧
      (createStyle d job.settings job.directory job.task.name option).2.2.map
          (fun created => (some option, created.toList)) =
        (writeNew d (stylePath job.settings job.directory job.task.name) text).2.map fun isNew =>
          (some option,
            if isNew then [stylePath job.settings job.directory job.task.name] else []) := by
  unfold createStyle
  rw [h]
  dsimp only
  split
  all_goals
    rename_i hw
    rw [hw]
    exact ⟨rfl, rfl⟩

lemma toldStyle_createStyle (h : job.task.type.carriesStyles fileName = true)
    {option : StyleOption} {text : String} (ht : option.render? job.task.name = some text)
    (d : Disk) :
    ToldStyle job fileName d
      ((createStyle d job.settings job.directory job.task.name option).2.2.map
        fun created => (some option, created.toList))
      (writeNew d (stylePath job.settings job.directory job.task.name) text).1
      (.style Console.stylePrompt (.ok option) ::
        Moment.ofWrite (stylePath job.settings job.directory job.task.name) text
          (writeNew d (stylePath job.settings job.directory job.task.name) text).2) := by
  rw [(createStyle_eq job ht d).2]
  exact .file h ht rfl

lemma treatStyle_tells (h : job.task.type.carriesStyles fileName = true) :
    Run.Tells op (job.treatStyle op) fun d result d' transcript =>
      ToldStyle job fileName d (result.map fun r => (some r.1, r.2)) d' transcript := by
  unfold treatStyle
  refine Run.Tells.bind _ (fun option d result d' writing => ToldStyle job fileName d
      (result.map fun r => (some r.1, r.2)) d'
      (.style Console.stylePrompt (.ok option) :: writing))
    (Run.Tells.askStyle op _) (fun option => ?_) ?_ ?_
  · cases hoption : option.render? job.task.name with
    | none =>
      have hkeep : option = .keep := by cases option <;> simp [StyleOption.render?] at hoption ⊢
      refine Run.Tells.ite (fun _ => Run.Tells.pure fun d => ?_) fun hne => ?_
      · rw [hkeep]
        exact .keep h
      · simp [hkeep] at hne
    | some text =>
      have hne : (option == StyleOption.keep) = false := by
        cases option <;> simp [StyleOption.render?] at hoption ⊢
      rw [hne, if_neg Bool.false_ne_true]
      refine Run.Tells.bind _ (fun created d result d' transcript =>
          result = .ok (option, created.toList) ∧ d' = d ∧ transcript = [])
        (Run.Tells.write fun d => (createStyle_eq job hoption d).1)
        (fun created => Run.Tells.pure fun d => ⟨rfl, rfl, rfl⟩) ?_ ?_
      · rintro d f d' writing ⟨hf, rfl, rfl⟩
        have hfile := toldStyle_createStyle job fileName h hoption d
        rw [← hf] at hfile
        exact hfile
      · rintro d created d₁ writing result d' nothing ⟨hcreated, rfl, rfl⟩ ⟨rfl, rfl, rfl⟩
        have hfile := toldStyle_createStyle job fileName h hoption d
        rw [← hcreated] at hfile
        rw [List.append_nil]
        exact hfile
  · rintro d f d' asked ⟨rfl, rfl⟩
    exact .unanswered h
  · rintro d option d₁ asked result d' writing ⟨rfl, rfl⟩ hstory
    exact hstory

lemma writeOverride_tells (plan : OverridePlan) :
    Run.Tells op (job.writeOverride fileName plan) (ToldWrite job fileName plan) := by
  unfold writeOverride
  cases hplan : synthesize plan with
  | error f => exact Run.Tells.note_bind (Run.Tells.pure fun d => .failed hplan)
  | ok text =>
    have htried : ∀ d, ToldWrite job fileName plan d
        ((writeNew d (job.targetPath fileName) text).2.map fun isNew =>
          if isNew then [job.targetPath fileName] else [])
        (writeNew d (job.targetPath fileName) text).1
        (Moment.ofWrite (job.targetPath fileName) text
          (writeNew d (job.targetPath fileName) text).2) := fun d => .tried hplan rfl
    refine Run.Tells.bind _ (fun isNew d result d' transcript =>
        result = .ok (if isNew then [job.targetPath fileName] else []) ∧ d' = d ∧ transcript = [])
      (Run.Tells.write fun _ => rfl) (fun isNew => ?_) ?_ ?_
    · cases isNew with
      | true => exact Run.Tells.pure fun d => ⟨rfl, rfl, rfl⟩
      | false => exact Run.Tells.note_bind (Run.Tells.pure fun d => ⟨rfl, rfl, rfl⟩)
    · rintro d f d' writing ⟨hf, rfl, rfl⟩
      have hd := htried d
      dsimp only at hf
      rw [← hf] at hd ⊢
      exact hd
    · rintro d isNew d₁ writing result d' nothing ⟨hnew, rfl, rfl⟩ ⟨rfl, rfl, rfl⟩
      have hd := htried d
      dsimp only at hnew
      rw [← hnew] at hd ⊢
      rw [List.append_nil]
      exact hd

/-- What is written at the end of a turn. -/
lemma conclusion_tells (source : SourceReading) (answer : List ExportRecord)
    (style : Option StyleOption) (styles : List Path) :
    Run.Tells op
      (if (chosenAmong source.exports.named answer).isEmpty then do
        Run.note [.caution ("Nothing was chosen to extend in " ++ fileName ++ ", skipping.")]
        return styles
      else do
        let created ← job.writeOverride fileName
          (job.plan fileName source (chosenAmong source.exports.named answer) style)
        return styles ++ created : Run σ (List Path))
      fun d result d' writing => ∀ d₀ styling,
        ToldStyle job fileName d₀ (.ok (style, styles)) d styling →
          ToldOverride job fileName source d₀ result d'
            (.exports (Console.exportPrompt fileName) source.exports.named (.ok answer) ::
              (styling ++ writing)) := by
  refine Run.Tells.ite (fun hnone => ?_) fun hsome => ?_
  · refine Run.Tells.note_bind (Run.Tells.pure fun d d₀ styling hs => ?_)
    rw [List.append_nil]
    exact .nothing hs (List.isEmpty_iff.mp hnone)
  · have hne : chosenAmong source.exports.named answer ≠ [] := fun he => hsome (by simp [he])
    refine Run.Tells.bind _ (fun created d result d' transcript =>
        result = .ok (styles ++ created) ∧ d' = d ∧ transcript = [])
      (writeOverride_tells op job fileName _) (fun created => Run.Tells.pure fun d => ⟨rfl, rfl, rfl⟩)
      ?_ ?_
    · intro d f d' writing hw d₀ styling hs
      exact .chosen hs hne hw
    · rintro d created d₁ writing result d' nothing hw ⟨rfl, rfl, rfl⟩ d₀ styling hs
      rw [List.append_nil]
      exact .chosen hs hne hw

lemma override_tells (source : SourceReading) :
    Run.Tells op (job.override op fileName source) (ToldOverride job fileName source) := by
  unfold override
  dsimp only
  refine Run.Tells.bind _ (fun answer d result d' transcript => ToldOverride job fileName source d
      result d' (.exports (Console.exportPrompt fileName) source.exports.named (.ok answer) ::
        transcript))
    (Run.Tells.askExports op _ _) (fun answer => ?_) ?_ ?_
  · cases hcarries : job.task.type.carriesStyles fileName with
    | false =>
      refine (conclusion_tells op job fileName source answer none []).mono
        fun d result d' writing h => ?_
      exact h d [] (.none hcarries)
    | true =>
      refine Run.Tells.bind _ (fun r d result d' writing => ∀ d₀ styling,
          ToldStyle job fileName d₀ (.ok (some r.1, r.2)) d styling →
            ToldOverride job fileName source d₀ result d'
              (.exports (Console.exportPrompt fileName) source.exports.named (.ok answer) ::
                (styling ++ writing)))
        (treatStyle_tells op job fileName hcarries)
        (fun r => conclusion_tells op job fileName source answer (some r.1) r.2) ?_ ?_
      · intro d f d' styling hs
        exact .stopped hs
      · intro d r d₁ styling result d' writing hs hrest
        exact hrest d styling hs
  · rintro d f d' asked ⟨rfl, rfl⟩
    exact .unanswered
  · rintro d answer d₁ asked result d' transcript ⟨rfl, rfl⟩ hrest
    exact hrest

/-- **A source file is handled as its story says.** -/
theorem handle_tells : Run.Tells op (job.handle op fileName) (Told job fileName) := by
  unfold handle
  refine Run.Tells.ite (fun hskip => Run.Tells.note_bind (Run.Tells.pure fun d => .skipped hskip))
    fun hskip => ?_
  rw [Bool.not_eq_true] at hskip
  refine Run.Tells.disk_bind fun d => Run.Tells.ite (fun hp => Run.Tells.note_bind
    (Run.Tells.pure ?_)) fun hp => ?_
  · rintro _ rfl
    exact .present hskip hp
  · rw [Bool.not_eq_true] at hp
    refine Run.Tells.ofExcept_bind ?_ fun code hr => ?_
    · rintro f hr _ rfl
      exact .unread hskip hp hr
    · -- what follows the note on errors
      have hrest : Run.Tells op
          (if (job.reading fileName code).exports.named.isEmpty then do
            Run.note [.caution ("No named exports were found in " ++ fileName ++ ", continuing.")]
            return []
          else job.override op fileName (job.reading fileName code))
          fun d₀ result d' transcript => d₀ = d → Told job fileName d₀ result d' transcript := by
        refine Run.Tells.ite (fun hn => Run.Tells.note_bind (Run.Tells.pure ?_)) fun hn => ?_
        · rintro _ rfl
          exact .bare hskip hp hr (List.isEmpty_iff.mp hn)
        · refine (override_tells op job fileName _).mono ?_
          rintro _ result d' transcript ho rfl
          exact .overridden hskip hp hr (fun he => hn (by simp [he])) ho
      dsimp only
      exact Run.Tells.ite (fun _ => Run.Tells.note_bind hrest) fun _ => hrest

/-- **Source files are handled as their story says.** -/
theorem handleAll_tells (files : List String) :
    Run.Tells op (job.handleAll op files) (ToldAll job files) := by
  induction files with
  | nil =>
    unfold handleAll
    exact Run.Tells.pure fun d => .nil
  | cons fileName rest ih =>
    unfold handleAll
    refine Run.Tells.bind _ (fun created d result d' later => ∃ result',
        ToldAll job rest d result' d' later ∧ result = result'.map (created ++ ·))
      (handle_tells op job fileName) (fun created => ?_) ?_ ?_
    · refine Run.Tells.bind _ (fun more d result d' transcript =>
          result = .ok (created ++ more) ∧ d' = d ∧ transcript = [])
        ih (fun more => Run.Tells.pure fun d => ⟨rfl, rfl, rfl⟩) ?_ ?_
      · intro d f d' later hrest
        exact ⟨_, hrest, rfl⟩
      · rintro d more d₁ later result d' nothing hrest ⟨rfl, rfl, rfl⟩
        rw [List.append_nil]
        exact ⟨_, hrest, rfl⟩
    · intro d f d' transcript h
      exact .stopped h
    · rintro d created d₁ transcript result d' later h ⟨result', hrest, rfl⟩
      exact .cons h hrest

end

end Job

/-! ## The whole run -/

section

variable (settings : Settings) (task : Task)

/-- **The story of a run**: it fails before anything is asked, finds nothing to do, or handles the
source files of what is found. -/
inductive Told : Run.Story (List String)
  | stopped {d : Disk} {f : Failure} : Told d (.error f) d []
  | nothing {d : Disk} {target : Module} (ht : moduleAt d settings task.target = .ok target)
      (hp : Prepared settings task target d none) : Told d (.ok []) d []
  | handled {d d' : Disk} {target : Module} {job : Job} {files : List String}
      {result : Except Failure (List Path)} {transcript : List Moment}
      (ht : moduleAt d settings task.target = .ok target)
      (hp : Prepared settings task target d (some (job, files)))
      (h : job.ToldAll files d result d' transcript) :
      Told d (result.map fun created => created.map Path.toString) d' transcript

variable {settings task}

lemma prepare_tells (op : Operator σ) (target : Module) :
    Run.Tells op (prepare settings task target) fun d result d' transcript =>
      d' = d ∧ transcript = [] ∧ ∀ found, result = .ok found → Prepared settings task target d found :=
  (prepare_looks.tells op fun _ => filter_isQuestion_noted _).mono
    fun _ _ _ _ ⟨hresult, hdisk, hnone⟩ =>
      ⟨hdisk, hnone, fun _ hfound => prepared_iff.mpr (hresult ▸ hfound)⟩

/-- What follows the source files asks nothing and leaves the disk as it is. -/
lemma reportTidying_tells (op : Operator σ) (report : TidyReport) (created : List String) :
    Run.Tells op (reportTidying report created)
      fun d result d' transcript => result = .ok created ∧ d' = d ∧ transcript = [] :=
  (reportTidying_looks report created).tells op fun _ => report.filter_isQuestion_events

/-- **Every run goes as its story says**, whatever tidies the created files. -/
theorem extend_tells (op : Operator σ) (tidier : Tidier) (settings : Settings) (task : Task) :
    Run.Tells op (extend op tidier settings task) (Told settings task) := by
  unfold extend
  refine Run.Tells.disk_bind fun d => Run.Tells.ofExcept_bind ?_ fun target ht => ?_
  · rintro f - _ rfl
    exact .stopped
  · refine Run.Tells.bind _ (fun found d₀ result d' transcript => d₀ = d →
        Prepared settings task target d₀ found → Told settings task d₀ result d' transcript)
      (prepare_tells op target) (fun found => ?_) ?_ ?_
    · split
      · refine Run.Tells.pure ?_
        rintro _ rfl hp
        exact .nothing ht hp
      · rename_i job files
        refine Run.Tells.note_bind (Run.Tells.bind _ (fun created d result d' transcript =>
            result = .ok (created.map Path.toString) ∧ d' = d ∧ transcript = [])
          (job.handleAll_tells op files) (fun created => reportTidying_tells op _ _) ?_ ?_)
        · rintro d₀ f d' transcript h rfl hp
          exact .handled ht hp h
        · rintro d₀ created d₁ transcript result d' nothing h ⟨rfl, rfl, rfl⟩ rfl hp
          rw [List.append_nil]
          exact .handled ht hp h
    · rintro _ f _ _ ⟨rfl, rfl, -⟩ rfl
      exact .stopped
    · rintro _ found d₁ _ result d' transcript ⟨rfl, rfl, hp⟩ hrest rfl
      exact hrest rfl (hp found rfl)

end

end ThemeOverride
