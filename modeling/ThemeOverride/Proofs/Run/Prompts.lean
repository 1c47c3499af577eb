import ThemeOverride.Proofs.Run.Independence
import ThemeOverride.Proofs.Run.Tidying

/-!
# The order of the questions

A run handles one source file after the other, each in a visit of its own. All that is asked about a
file is asked in its visit, and what is written in the visits of the files before is there by then.

## Main definitions

* `ThemeOverride.Job.PassedOver` — nothing is asked about a source file.
* `ThemeOverride.Job.questionsFor` — what is asked about a source file otherwise.
* `ThemeOverride.Visit` — the visit of a source file in a run.
* `ThemeOverride.Visit.Runs`, `ThemeOverride.Job.Visits` — a visit is part of a run, and visits follow
  one another.

## Main results

* `ThemeOverride.Job.exists_visits` — source files that are handled have their visits.
* `ThemeOverride.Job.Visits.split` — what is asked and written before a visit, and after it.
* `ThemeOverride.extend_asks_in_visits` — the questions of a run are those of its visits.
-/

namespace ThemeOverride

variable {σ : Type}

namespace Job

section

variable (job : Job) (fileName : String) (d : Disk)

/-- **A source file is passed over**: it has only types and the override none, its override is there,
or it has no named exports. -/
inductive PassedOver : Prop
  | skipped (h : job.isSkipped fileName = true)
  | present (h : d.exists (job.targetPath fileName) = true)
  | bare {code : String} (hr : readText d (job.sourcePath fileName) = .ok code)
      (hn : (job.reading fileName code).exports.named = [])

/-- What is asked about a source file that is not passed over: which of its named exports are to be
extended, and, if it carries styles, how these are treated. -/
def questionsFor (code : String) : List Event :=
  .askedExports (Console.exportPrompt fileName) (job.reading fileName code).exports.named ::
    if job.task.type.carriesStyles fileName then [.askedStyle Console.stylePrompt] else []

/-- What is asked in the visit of a source file: nothing just if the file is passed over, and its
questions otherwise. -/
structure Asks (asked : List Event) : Prop where
  eq_nil_iff : asked = [] ↔ job.PassedOver fileName d
  eq_questionsFor : ¬ job.PassedOver fileName d →
    ∃ code, readText d (job.sourcePath fileName) = .ok code ∧ asked = job.questionsFor fileName code

end

section

variable {job : Job} {fileName : String} {d d' : Disk} {transcript : List Moment}

lemma ToldStyle.questionsIn_eq {r : Option StyleOption × List Path}
    (h : ToldStyle job fileName d (.ok r) d' transcript) : questionsIn transcript =
      if job.task.type.carriesStyles fileName then [.askedStyle Console.stylePrompt] else [] := by
  generalize hresult : (Except.ok r : Except Failure _) = result at h
  cases h with
  | none h => rw [h]; rfl
  | unanswered => cases hresult
  | keep h => rw [h]; rfl
  | file h => simp [h, questionsIn, Moment.question?, Moment.question?_ofWrite]

lemma ToldWrite.questionsIn_eq {plan : OverridePlan} {result : Except Failure (List Path)}
    (h : ToldWrite job fileName plan d result d' transcript) : questionsIn transcript = [] := by
  cases h with
  | failed => rfl
  | tried => exact Moment.question?_ofWrite _ _ _

lemma ToldOverride.questionsIn_eq {code : String} {created : List Path}
    (h : ToldOverride job fileName (job.reading fileName code) d (.ok created) d' transcript) :
    questionsIn transcript = job.questionsFor fileName code := by
  generalize hresult : (Except.ok created : Except Failure _) = result at h
  cases h with
  | unanswered => cases hresult
  | stopped => cases hresult
  | nothing hs => exact congrArg _ hs.questionsIn_eq
  | chosen hs _ hw =>
    refine congrArg (_ :: ·) ?_
    change questionsIn _ = _
    rw [questionsIn, List.filterMap_append]
    exact (congrArg₂ _ hs.questionsIn_eq hw.questionsIn_eq).trans (List.append_nil _)

/-- What is asked in the visit of a source file, by its story. -/
theorem Told.asks {created : List Path} (h : Told job fileName d (.ok created) d' transcript) :
    job.Asks fileName d (questionsIn transcript) := by
  generalize hresult : (Except.ok created : Except Failure _) = result at h
  have hpassed : job.PassedOver fileName d → job.Asks fileName d [] := fun hp =>
    ⟨⟨fun _ => hp, fun _ => rfl⟩, fun hn => absurd hp hn⟩
  cases h with
  | skipped h => exact hpassed (.skipped h)
  | present _ hp => exact hpassed (.present hp)
  | unread => cases hresult
  | bare _ _ hr hn => exact hpassed (.bare hr hn)
  | @overridden _ _ code _ _ h hp hr hn ho =>
    subst hresult
    have hnot : ¬ job.PassedOver fileName d := by
      rintro (h' | hp' | ⟨hr', hn'⟩)
      · rw [h] at h'; cases h'
      · rw [hp] at hp'; cases hp'
      · rw [hr, Except.ok.injEq] at hr'
        exact hn (hr' ▸ hn')
    rw [ho.questionsIn_eq]
    exact ⟨⟨fun he => (List.cons_ne_nil _ _ he).elim, fun hp => absurd hp hnot⟩,
      fun _ => ⟨code, hr, rfl⟩⟩

end

end Job

/-- The visit of a source file: the scenes before and after it, the questions that are asked in it,
and the paths of the files that are new. -/
structure Visit (σ : Type) where
  fileName : String
  before : Scene σ
  asked : List Event
  created : List Path
  after : Scene σ

/-- A visit is part of a run: its source file is handled in it, what is asked is so by the disk that
is there, and it makes the disk grow by the files that it creates. -/
structure Visit.Runs (op : Operator σ) (job : Job) (v : Visit σ) : Prop where
  handled : job.handle op v.fileName v.before = (.ok v.created, v.after)
  asks : job.Asks v.fileName v.before.disk v.asked
  questions_eq : Run.questions v.after = Run.questions v.before ++ v.asked
  grows : v.before.disk.Grows v.created v.after.disk

namespace Job

variable {op : Operator σ} {job : Job}

/-- A source file that is handled has its visit. -/
lemma exists_visit {fileName : String} {s s' : Scene σ} {created : List Path}
    (h : job.handle op fileName s = (.ok created, s')) :
    ∃ asked, (Visit.mk fileName s asked created s').Runs op job := by
  obtain ⟨transcript, htold, -, hquestions⟩ := job.handle_tells op fileName s
  have hgrows := (Run.ensures_iff.mp (handle_ensures op job s.disk [] fileName) s (.refl s.disk)).1
  rw [h] at htold hquestions hgrows
  exact ⟨questionsIn transcript, h, htold.asks, hquestions, (hgrows created rfl).1⟩

/-- Visits that follow one another, from a scene to another. -/
inductive Visits (op : Operator σ) (job : Job) : Scene σ → List (Visit σ) → Scene σ → Prop
  | nil {s : Scene σ} : Visits op job s [] s
  | cons {v : Visit σ} {rest : List (Visit σ)} {s' : Scene σ} (ht : v.Runs op job)
      (hrest : Visits op job v.after rest s') : Visits op job v.before (v :: rest) s'

/-- **Source files that are handled have their visits**, in their order. -/
theorem exists_visits {files : List String} {s s' : Scene σ} {created : List Path}
    (h : job.handleAll op files s = (.ok created, s')) :
    ∃ visits, Visits op job s visits s' ∧ visits.map Visit.fileName = files ∧
      created = visits.flatMap Visit.created := by
  induction files generalizing s created with
  | nil =>
    cases h
    exact ⟨[], .nil, rfl, rfl⟩
  | cons fileName rest ih =>
    obtain ⟨first, between, hfirst, h⟩ := Run.bind_eq_ok.mp h
    obtain ⟨more, _, hmore, h⟩ := Run.bind_eq_ok.mp h
    cases h
    obtain ⟨asked, ht⟩ := exists_visit hfirst
    obtain ⟨visits, hvisits, rfl, rfl⟩ := ih hmore
    exact ⟨⟨fileName, s, asked, first, between⟩ :: visits, .cons ht hvisits, rfl, rfl⟩

namespace Visits

variable {s s' : Scene σ} {visits : List (Visit σ)}

/-- What is asked in visits is what is asked in each of them. -/
lemma questions_eq (h : Visits op job s visits s') :
    Run.questions s' = Run.questions s ++ visits.flatMap Visit.asked := by
  induction h with
  | nil => exact (List.append_nil _).symm
  | cons ht _ ih => rw [ih, ht.questions_eq, List.append_assoc, List.flatMap_cons]

/-- Visits make the disk grow by the files that each of them creates. -/
lemma grows (h : Visits op job s visits s') :
    s.disk.Grows (visits.flatMap Visit.created) s'.disk := by
  induction h with
  | nil => exact .refl _
  | cons ht _ ih => exact ht.grows.append ih

/-- **Each visit has its place**: those before it lead to it, and it leads on with those behind. -/
theorem split {earlier later : List (Visit σ)} {v : Visit σ}
    (h : Visits op job s (earlier ++ v :: later) s') :
    Visits op job s earlier v.before ∧ v.Runs op job ∧ Visits op job v.before (v :: later) s' := by
  induction earlier generalizing s with
  | nil =>
    cases h with
    | cons ht hrest => exact ⟨.nil, ht, .cons ht hrest⟩
  | cons first earlier ih =>
    cases h with
    | cons hfirst hrest =>
      obtain ⟨hearlier, hrest⟩ := ih hrest
      exact ⟨.cons hfirst hearlier, hrest⟩

end Visits

end Job

/-- **The questions of a run do not interleave.** The visits are those of the source files in their
order, and the questions are those of the visits, each as the disk at its beginning has it. When a
visit begins, nothing is asked but what belongs to the visits before, and all that these create is
written: what is created later is created in this visit and those behind. -/
structure AsksInVisits (op : Operator σ) (job : Job) (files : List String) (s s' : Scene σ)
    (created : List Path) (visits : List (Visit σ)) : Prop where
  files_eq : visits.map Visit.fileName = files
  questions_eq : Run.questions s' = Run.questions s ++ visits.flatMap Visit.asked
  created_eq : created = visits.flatMap Visit.created
  in_place : ∀ earlier v later, visits = earlier ++ v :: later →
    v.Runs op job ∧
    Run.questions v.before = Run.questions s ++ earlier.flatMap Visit.asked ∧
    s.disk.Grows (earlier.flatMap Visit.created) v.before.disk ∧
    v.before.disk.Grows ((v :: later).flatMap Visit.created) s'.disk

variable {s s' : Scene σ} {created : List String}

/-- A run that only notes what it does asks nothing. -/
lemma Abandons.questions_eq {settings : Settings} {task : Task}
    (h : Abandons settings task s s' created) : Run.questions s' = Run.questions s := by
  obtain ⟨ns, hns⟩ := h.events_eq
  simp [Run.questions, hns, Event.isQuestion]

/-- **The questions of a run are those of its source files, one file after the other.** A run that
gives a result has done and asked nothing, or each source file has had its visit.

**Proof sketch.** The story of a source file says what is asked in its visit (`Job.Told.asks`), and the
visits follow one another as the source files do (`Job.exists_visits`). What tidies the created files
asks nothing. -/
theorem extend_asks_in_visits (op : Operator σ) (tidier : Tidier) (settings : Settings) (task : Task)
    (h : extend op tidier settings task s = (.ok created, s')) :
    (Abandons settings task s s' created ∧ Run.questions s' = Run.questions s) ∨
    ∃ (target : Module) (job : Job) (files : List String) (paths : List Path)
        (visits : List (Visit σ)),
      moduleAt s.disk settings task.target = .ok target ∧
      Prepared settings task target s.disk (some (job, files)) ∧
      created = paths.map Path.toString ∧ AsksInVisits op job files s s' paths visits := by
  rcases abandons_or_tidies h with habandons | htidies
  · exact .inl ⟨habandons, habandons.questions_eq⟩
  · obtain ⟨target, job, files, paths, start, last, ht, hp, hdisk, -, ⟨ns, hevents⟩, hhandled, -, hc,
      rfl⟩ := htidies
    have hstart : Run.questions start = Run.questions s := by
      simp [Run.questions, hevents, Event.isQuestion]
    obtain ⟨visits, hvisits, hfiles, hpaths⟩ := Job.exists_visits hhandled
    refine .inr ⟨target, job, files, paths, visits, ht, hp, hc, hfiles, ?_, hpaths, ?_⟩
    · rw [← hstart, ← hvisits.questions_eq]
      simp [Run.questions, TidyReport.filter_isQuestion_events]
    · rintro earlier v later rfl
      obtain ⟨hearlier, hruns, hlater⟩ := hvisits.split
      exact ⟨hruns, by rw [← hstart, hearlier.questions_eq], by rw [← hdisk]; exact hearlier.grows,
        hlater.grows⟩

/-- The override that the second file would get is a link to the first one, and is there when its
visit begins: of two files in two visits, only the first is asked about. -/
theorem extend_asks_in_visits_linkedTarget : ∃ s' : Scene Unit,
    extend Operator.eager (fun _ _ _ => {}) {} Task.store ⟨Disk.linkedTarget, (), []⟩ =
      (.ok ["/t/src/store/X/X.container.js"], s') ∧
    (∃ paths visits, AsksInVisits Operator.eager Job.store ["X.container.js", "X.js"]
      ⟨Disk.linkedTarget, (), []⟩ s' paths visits) ∧
    (Run.questions s').length = 1 := by
  have hmem : Disk.linkedTarget ∈ [Disk.twoFiles, Disk.linkedTarget] := by simp
  obtain ⟨hhandled, hasked⟩ := Job.handleAll_linkedTarget
  obtain ⟨s', hrun, -, hquestions⟩ := exists_extend Operator.eager_follows (fun _ _ _ => {})
    (Task.moduleAt_store hmem) (Task.prepared_store hmem) hhandled
  refine ⟨s', hrun, ?_, by rw [hquestions, hasked]; rfl⟩
  rcases extend_asks_in_visits Operator.eager (fun _ _ _ => {}) {} Task.store hrun with h | h
  · exact absurd h.1.created_eq (by simp)
  · obtain ⟨target, job, files, paths, visits, ht, hp, -, hvisits⟩ := h
    obtain rfl := Except.ok.inj ((Task.moduleAt_store hmem).symm.trans ht)
    obtain ⟨rfl, rfl⟩ := Prod.mk.inj (Option.some.inj ((Task.prepared_store hmem).unique hp))
    exact ⟨paths, visits, hvisits⟩

end ThemeOverride
