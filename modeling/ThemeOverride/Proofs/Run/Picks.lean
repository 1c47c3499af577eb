import ThemeOverride.Proofs.Run.Independence
import ThemeOverride.Proofs.Run.Transcript

/-!
# Exports that are picked

An operator answers the question for exports with a list. Its order, repetitions, and records that
were not offered make no difference: two operators who pick the same of what is offered get the same
files, notes and failures, whatever else is in their answers.

## Main definitions

* `ThemeOverride.PickSame` — two answers hold the same of what is offered.
* `ThemeOverride.Scene.Matches` — two scenes are the same, apart from the states of the operators.
* `ThemeOverride.Run.Alike` — two runs come to the same, up to a relation of their results.
* `ThemeOverride.Operator.PicksLike` — two operators pick the same and treat styles alike.

## Main results

* `ThemeOverride.chosenAmong_eq_iff` — the same is chosen exactly if the same is picked.
* `ThemeOverride.synthesize_congr` — an override depends on the names that are chosen alone.
* `ThemeOverride.Run.Alike.bind` — one run after another.
* `ThemeOverride.extend_alike` — whole runs come to the same.
* `ThemeOverride.Operator.PicksLike.outcome` — only the set of picked exports matters.

## Design

That two runs come to the same is a triple about both of them, as `ThemeOverride.Run.Ensures` is one
about a single run: there is one rule for each way to put runs together. The answers to a question
differ in the two runs, so results are compared by a relation. For answers this is
`ThemeOverride.PickSame`, and it becomes equality as soon as the exports are chosen.
-/

namespace ThemeOverride

open Script

/-! ## What is chosen -/

/-- **Two answers pick the same** of what is offered, in whichever order and how often they name it,
and whatever else they name. -/
def PickSame (offered answer answer' : List ExportRecord) : Prop :=
  ∀ r ∈ offered, r ∈ answer ↔ r ∈ answer'

section

variable {offered answer answer' : List ExportRecord}

lemma mem_chosenAmong {r : ExportRecord} :
    r ∈ chosenAmong offered answer ↔ r ∈ offered ∧ r ∈ answer := by
  simp [chosenAmong]

/-- **The same is chosen exactly if the same is picked.** -/
theorem chosenAmong_eq_iff :
    chosenAmong offered answer = chosenAmong offered answer' ↔ PickSame offered answer answer' := by
  constructor
  · intro h r hr
    have hmem : r ∈ chosenAmong offered answer ↔ r ∈ chosenAmong offered answer' := by rw [h]
    simpa [mem_chosenAmong, hr] using hmem
  · intro h
    apply List.filter_congr
    intro r hr
    rw [Bool.eq_iff_iff, List.contains_iff_mem, List.contains_iff_mem]
    exact h r hr

/-- What is chosen stands in the order in which it was offered. -/
lemma chosenAmong_sublist (offered answer : List ExportRecord) :
    (chosenAmong offered answer).Sublist offered := List.filter_sublist

end

/-! ## Overrides of what is chosen -/

section

variable {all chosen chosen' : List ExportRecord}
  (h : ∀ name, name ∈ chosen.map (·.name) ↔ name ∈ chosen'.map (·.name))

include h

/-- Exports are told apart by the names that are chosen. -/
lemma partitionExports_congr : partitionExports all chosen = partitionExports all chosen' := by
  have hany : ∀ r : ExportRecord,
      chosen.any (·.name == r.name) = chosen'.any (·.name == r.name) := by
    intro r
    have hname := h r.name
    simp only [List.mem_map] at hname
    rw [Bool.eq_iff_iff]
    simpa only [List.any_eq_true, beq_iff_eq] using hname
  unfold partitionExports
  simp only [hany]

lemma OverridePlan.text_congr (plan : OverridePlan) :
    { plan with chosen := chosen }.text = { plan with chosen := chosen' }.text := by
  set p : OverridePlan := { plan with chosen := chosen }
  set q : OverridePlan := { plan with chosen := chosen' }
  have hparts : partitionExports p.allExports p.chosen = partitionExports q.allExports q.chosen :=
    partitionExports_congr h
  have hpass : p.passthrough = q.passthrough := congrArg Prod.fst hparts
  have hextended : p.extended = q.extended := congrArg Prod.snd hparts
  have htype : p.typePassthrough = q.typePassthrough := by
    unfold typePassthrough
    rw [hpass]
  have hvalue : p.valuePassthrough = q.valuePassthrough := by
    unfold valuePassthrough
    rw [hpass, htype]
  have himports : p.imports = q.imports := by
    unfold imports specifiers
    rw [hextended]
    rfl
  unfold text sections
  rw [himports, hvalue, htype, hextended]
  rfl

/-- **An override depends on the names that are chosen alone.** -/
theorem synthesize_congr (plan : OverridePlan) :
    synthesize { plan with chosen := chosen } = synthesize { plan with chosen := chosen' } := by
  have htext := OverridePlan.text_congr h plan
  unfold synthesize
  rw [htext]
  rfl

end

/-! ## Runs that come to the same -/

variable {σ τ α β γ δ : Type}

/-- **Two scenes match** if they are the same, apart from the states of the operators, which are
related. -/
structure Scene.Matches (rel : σ → τ → Prop) (s : Scene σ) (s' : Scene τ) : Prop where
  disk_eq : s.disk = s'.disk
  events_eq : s.events = s'.events
  operator : rel s.operator s'.operator

/-- The same failure, or results that are related. -/
inductive Agree (R : α → β → Prop) : Except Failure α → Except Failure β → Prop
  | ok {a : α} {b : β} (h : R a b) : Agree R (.ok a) (.ok b)
  | error (f : Failure) : Agree R (.error f) (.error f)

lemma Agree.refl (x : Except Failure α) : Agree Eq x x := by
  cases x with
  | ok a => exact .ok rfl
  | error f => exact .error f

lemma Agree.eq {x y : Except Failure α} (h : Agree Eq x y) : x = y := by
  cases h with
  | ok h => rw [h]
  | error => rfl

/-- **Two operators pick alike** as long as their states are related: they pick the same of what is
offered and treat styles in the same way, or fail in the same way, and their states stay related. -/
structure Operator.PicksLike (rel : σ → τ → Prop) (op : Operator σ) (op' : Operator τ) : Prop where
  exports : ∀ prompt offered o o', rel o o' →
    Agree (PickSame offered) (op.exports prompt offered o).1 (op'.exports prompt offered o').1 ∧
      rel (op.exports prompt offered o).2 (op'.exports prompt offered o').2
  style : ∀ prompt o o', rel o o' →
    (op.style prompt o).1 = (op'.style prompt o').1 ∧
      rel (op.style prompt o).2 (op'.style prompt o').2

namespace Run

/-- **Two runs come to the same**: in scenes that match they give results that are related, or the
same failure, and leave scenes that match. -/
def Alike (rel : σ → τ → Prop) (R : α → β → Prop) (r : Run σ α) (r' : Run τ β) : Prop :=
  ∀ s s', s.Matches rel s' → Agree R (r s).1 (r' s').1 ∧ (r s).2.Matches rel (r' s').2

namespace Alike

variable {rel : σ → τ → Prop} {R : α → β → Prop} {S : γ → δ → Prop}

protected lemma pure {a : α} {b : β} (h : R a b) :
    Alike rel R (pure a : Run σ α) (pure b : Run τ β) := fun _ _ hs => ⟨.ok h, hs⟩

/-- **One run after another**, where what follows comes to the same for all related results. -/
protected theorem bind {r : Run σ α} {r' : Run τ β} {next : α → Run σ γ} {next' : β → Run τ δ}
    (hr : Alike rel R r r') (hnext : ∀ a b, R a b → Alike rel S (next a) (next' b)) :
    Alike rel S (r >>= next) (r' >>= next') := by
  intro s s' hs
  obtain ⟨hresult, hscene⟩ := hr s s' hs
  change Agree S (Run.bind r next s).1 (Run.bind r' next' s').1 ∧
    (Run.bind r next s).2.Matches rel (Run.bind r' next' s').2
  unfold Run.bind
  cases hrun : r s with
  | mk x between =>
    cases hrun' : r' s' with
    | mk y between' =>
      rw [hrun, hrun'] at hresult hscene
      cases hresult with
      | ok h => exact hnext _ _ h between between' hscene
      | error f => exact ⟨.error f, hscene⟩

/-- One run after another, where the results of the first are equal. -/
lemma bind_eq {r : Run σ α} {r' : Run τ α} {next : α → Run σ γ} {next' : α → Run τ δ}
    (hr : Alike rel Eq r r') (hnext : ∀ a, Alike rel S (next a) (next' a)) :
    Alike rel S (r >>= next) (r' >>= next') := hr.bind fun a _ h => h ▸ hnext a

/-- Both ways of a choice. -/
protected lemma ite {c : Prop} [Decidable c] {r₁ r₂ : Run σ α} {r₁' r₂' : Run τ β}
    (ht : Alike rel R r₁ r₁') (hf : Alike rel R r₂ r₂') :
    Alike rel R (if c then r₁ else r₂) (if c then r₁' else r₂') := by
  split
  · exact ht
  · exact hf

lemma ofExcept (x : Except Failure α) :
    Alike rel Eq (Run.ofExcept x : Run σ α) (Run.ofExcept x : Run τ α) := fun _ _ hs =>
  ⟨.refl x, hs⟩

lemma disk : Alike rel Eq (Run.disk : Run σ Disk) (Run.disk : Run τ Disk) := fun _ _ hs =>
  ⟨.ok hs.disk_eq, hs⟩

lemma note (ns : List Note) :
    Alike rel Eq (Run.note ns : Run σ Unit) (Run.note ns : Run τ Unit) := fun _ _ hs =>
  ⟨.ok rfl, { hs with events_eq := congrArg (· ++ ns.map Event.noted) hs.events_eq }⟩

lemma change (f : Disk → Disk × List Note × Except Failure α) :
    Alike rel Eq (Run.change f : Run σ α) (Run.change f : Run τ α) := by
  intro s s' hs
  unfold Run.change
  rw [hs.disk_eq]
  exact ⟨.refl _, rfl, congrArg (· ++ _) hs.events_eq, hs.operator⟩

variable {op : Operator σ} {op' : Operator τ}

lemma askExports (h : op.PicksLike rel op') (prompt : String) (offered : List ExportRecord) :
    Alike rel (PickSame offered) (Run.askExports op prompt offered)
      (Run.askExports op' prompt offered) := by
  intro s s' hs
  obtain ⟨hanswer, hstate⟩ := h.exports prompt offered _ _ hs.operator
  exact ⟨hanswer, hs.disk_eq, congrArg (· ++ _) hs.events_eq, hstate⟩

lemma askStyle (h : op.PicksLike rel op') (prompt : String) :
    Alike rel Eq (Run.askStyle op prompt) (Run.askStyle op' prompt) := by
  intro s s' hs
  obtain ⟨hanswer, hstate⟩ := h.style prompt _ _ hs.operator
  refine ⟨?_, hs.disk_eq, congrArg (· ++ _) hs.events_eq, hstate⟩
  exact hanswer ▸ .refl _

end Alike

/-- Runs that see the same on every disk, and leave the same events, come to the same. -/
lemma Looks.alike {rel : σ → τ → Prop} {r : Run σ α} {r' : Run τ α}
    {outcome : Disk → Except Failure α} {left : Disk → List Event} (h : r.Looks outcome left)
    (h' : r'.Looks outcome left) : Alike rel Eq r r' := by
  intro s s' hs
  rw [h, h', hs.disk_eq]
  exact ⟨.refl _, rfl, congrArg (· ++ left s'.disk) hs.events_eq, hs.operator⟩

end Run

/-! ## Source files and whole runs -/

section

open Run (Alike)

variable {rel : σ → τ → Prop} {op : Operator σ} {op' : Operator τ}

namespace Job

variable (job : Job)

lemma treatStyle_alike (h : op.PicksLike rel op') :
    Alike rel Eq (job.treatStyle op) (job.treatStyle op') := by
  unfold treatStyle
  refine (Alike.askStyle h _).bind_eq fun option => ?_
  exact .ite (.pure rfl) ((Alike.change _).bind_eq fun _ => .pure rfl)

lemma writeOverride_alike (fileName : String) (plan : OverridePlan) :
    Alike rel Eq (job.writeOverride fileName plan : Run σ (List Path))
      (job.writeOverride fileName plan : Run τ (List Path)) := by
  unfold writeOverride
  split
  · exact (Alike.note _).bind_eq fun _ => .pure rfl
  · refine (Alike.change _).bind_eq fun isNew => ?_
    exact .ite (.pure rfl) ((Alike.note _).bind_eq fun _ => .pure rfl)

lemma override_alike (h : op.PicksLike rel op') (fileName : String) (source : SourceReading) :
    Alike rel Eq (job.override op fileName source) (job.override op' fileName source) := by
  unfold override
  refine (Alike.askExports h _ _).bind fun answer answer' hpick => ?_
  -- from here on nothing depends on the answers but what is chosen
  have hchosen := chosenAmong_eq_iff.mpr hpick
  simp only [hchosen]
  have hrest : ∀ chosen style styles, Alike rel Eq
      (if chosen.isEmpty then do
          Run.note [.caution ("Nothing was chosen to extend in " ++ fileName ++ ", skipping.")]
          return styles
        else do
          let created ← job.writeOverride fileName (job.plan fileName source chosen style)
          return styles ++ created : Run σ (List Path))
      (if chosen.isEmpty then do
          Run.note [.caution ("Nothing was chosen to extend in " ++ fileName ++ ", skipping.")]
          return styles
        else do
          let created ← job.writeOverride fileName (job.plan fileName source chosen style)
          return styles ++ created : Run τ (List Path)) := fun chosen style styles =>
    .ite ((Alike.note _).bind_eq fun _ => .pure rfl)
      ((job.writeOverride_alike fileName _).bind_eq fun _ => .pure rfl)
  split
  · exact (job.treatStyle_alike h).bind_eq fun _ => hrest _ _ _
  · exact hrest _ _ _

/-- **Handling a source file comes to the same** for operators who pick alike. -/
theorem handle_alike (h : op.PicksLike rel op') (fileName : String) :
    Alike rel Eq (job.handle op fileName) (job.handle op' fileName) := by
  have hnone : ∀ ns : List Note, Alike rel Eq (do Run.note ns; return [] : Run σ (List Path))
      (do Run.note ns; return [] : Run τ (List Path)) :=
    fun ns => (Alike.note ns).bind_eq fun _ => .pure rfl
  unfold handle
  refine .ite (hnone _) (Alike.disk.bind_eq fun d => .ite (hnone _) ?_)
  refine (Alike.ofExcept _).bind_eq fun code => ?_
  have hrest : ∀ source : SourceReading, Alike rel Eq
      (if source.exports.named.isEmpty then do
          Run.note [.caution ("No named exports were found in " ++ fileName ++ ", continuing.")]
          return []
        else job.override op fileName source)
      (if source.exports.named.isEmpty then do
          Run.note [.caution ("No named exports were found in " ++ fileName ++ ", continuing.")]
          return []
        else job.override op' fileName source) := fun source =>
    .ite (hnone _) (job.override_alike h fileName source)
  exact .ite ((Alike.note _).bind_eq fun _ => hrest _) (hrest _)

lemma handleAll_alike (h : op.PicksLike rel op') (files : List String) :
    Alike rel Eq (job.handleAll op files) (job.handleAll op' files) := by
  induction files with
  | nil => exact .pure rfl
  | cons fileName rest ih =>
    exact (job.handle_alike h fileName).bind_eq fun _ => ih.bind_eq fun _ => .pure rfl

end Job

/-- **Whole runs come to the same** for operators who pick alike. -/
theorem extend_alike (h : op.PicksLike rel op') (tidier : Tidier) (settings : Settings)
    (task : Task) :
    Alike rel Eq (extend op tidier settings task) (extend op' tidier settings task) := by
  unfold extend
  refine Alike.disk.bind_eq fun d => (Alike.ofExcept _).bind_eq fun target => ?_
  refine (prepare_looks.alike prepare_looks).bind_eq fun found => ?_
  cases found with
  | none => exact .pure rfl
  | some found =>
    obtain ⟨job, files⟩ := found
    refine (Alike.note _).bind_eq fun _ => (job.handleAll_alike h files).bind_eq fun created => ?_
    exact (reportTidying_looks _ _).alike (reportTidying_looks _ _)

/-- **Only the set of picked exports matters.** Answers that pick the same choose the same, some of
what was offered in its order; no answer counts as one that picks nothing. An override is the same
for all lists of exports with the same names. So handling a source file comes to the same for
operators who pick alike: the same new paths or the same failure, the same disk, and the same notes
and questions.

**Proof sketch.** From the answers on, a run depends on what is chosen alone
(`ThemeOverride.chosenAmong_eq_iff`), and up to there the two runs do the same, which
`ThemeOverride.Run.Alike.bind` carries from each step to the next. -/
theorem Operator.PicksLike.outcome (h : op.PicksLike rel op') :
    (∀ (offered : List ExportRecord) (answer answer' : Option (List ExportRecord)),
      PickSame offered (answer.getD []) (answer'.getD []) →
        chosenAmong offered (answer.getD []) = chosenAmong offered (answer'.getD [])) ∧
    (∀ offered answer, (chosenAmong offered answer).Sublist offered) ∧
    (∀ (plan : OverridePlan) (chosen chosen' : List ExportRecord),
      (∀ name, name ∈ chosen.map (·.name) ↔ name ∈ chosen'.map (·.name)) →
        synthesize { plan with chosen := chosen } = synthesize { plan with chosen := chosen' }) ∧
    ∀ (job : Job) (fileName : String) (s : Scene σ) (s' : Scene τ), s.Matches rel s' →
      (job.handle op fileName s).1 = (job.handle op' fileName s').1 ∧
        (job.handle op fileName s).2.Matches rel (job.handle op' fileName s').2 := by
  refine ⟨fun offered answer answer' hpick => chosenAmong_eq_iff.mpr hpick, chosenAmong_sublist,
    fun plan chosen chosen' hnames => synthesize_congr hnames plan, ?_⟩
  intro job fileName s s' hs
  obtain ⟨hresult, hscene⟩ := job.handle_alike h fileName s s' hs
  exact ⟨hresult.eq, hscene⟩

end

/-! ## Two exports in one file -/

/-- A module that has a store with two exports. -/
def Disk.twoExports : Disk where
  entries :=
    [(["b"], .directory), (["b", "src"], .directory), (["b", "src", "store"], .directory),
     (["b", "src", "store", "X"], .directory),
     (["b", "src", "store", "X", "X.js"],
       .file (Text.encode "export const a = 1;\nexport function b() \x7b\x7d"))]

/-- An operator who names all that is offered twice, once backwards, and something else. -/
def Operator.untidy : Operator Unit where
  exports _ offered s := (.ok (offered.reverse ++ { name := "other" } :: offered), s)
  style _ s := (.ok .extend, s)

lemma Operator.eager_picksLike_untidy : Operator.eager.PicksLike Eq Operator.untidy where
  exports _ offered _ _ h := by
    refine ⟨.ok fun r hr => ?_, h⟩
    simp [hr]
  style _ _ _ h := ⟨rfl, h⟩

set_option maxRecDepth 10000 in
/-- The two operators get the same override. -/
theorem Operator.untidy_outcome :
    Operator.eager.PicksLike Eq Operator.untidy ∧
    (Job.store.handle Operator.eager "X.js" ⟨Disk.twoExports, (), []⟩).1 =
      .ok [⟨"/", ["t", "src", "store", "X", "X.js"]⟩] ∧
    Job.store.handle Operator.untidy "X.js" ⟨Disk.twoExports, (), []⟩ =
      Job.store.handle Operator.eager "X.js" ⟨Disk.twoExports, (), []⟩ := by
  have hpaths : (Job.store.handle Operator.eager "X.js" ⟨Disk.twoExports, (), []⟩).1 =
      .ok [⟨"/", ["t", "src", "store", "X", "X.js"]⟩] := by decide +kernel
  obtain ⟨-, -, -, hhandle⟩ := Operator.eager_picksLike_untidy.outcome
  obtain ⟨hresult, hdisk, hevents, -⟩ := hhandle Job.store "X.js" ⟨Disk.twoExports, (), []⟩
    ⟨Disk.twoExports, (), []⟩ ⟨rfl, rfl, rfl⟩
  refine ⟨Operator.eager_picksLike_untidy, hpaths, Prod.ext hresult.symm ?_⟩
  generalize (Job.store.handle Operator.untidy "X.js" ⟨Disk.twoExports, (), []⟩).2 = s' at *
  generalize (Job.store.handle Operator.eager "X.js" ⟨Disk.twoExports, (), []⟩).2 = s at *
  cases s
  cases s'
  cases hdisk
  cases hevents
  rfl

end ThemeOverride
