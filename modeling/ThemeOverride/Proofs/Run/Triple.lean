import Mathlib.Tactic.Lemma
import ThemeOverride.Run.Scene

/-!
# Triples of runs

What a run does to the disk is said by a triple: on a disk as the first part says, a run that
gives a result leaves a disk as the second part says for this result, and a run that fails leaves
one as the third part says. Each way to put runs together has a rule.

## Main definitions

* `ThemeOverride.Run.Ensures` — triples of runs.
* `ThemeOverride.Run.Quiet` — runs that leave the disk as it is.

## Main results

* `ThemeOverride.Run.Ensures.bind` — the rule for one run after another.
* `ThemeOverride.Run.Quiet.ensures` — a run that leaves the disk as it is keeps what is said of
  the disk.
-/

namespace ThemeOverride

namespace Run

variable {σ α β : Type}

/-- **Triples of runs.** On a disk as `pre` says, the run gives a result and a disk as `post`
says, or fails and leaves a disk as `fail` says. -/
def Ensures (pre : Disk → Prop) (r : Run σ α) (post : α → Disk → Prop) (fail : Disk → Prop) :
    Prop :=
  ∀ s : Scene σ, pre s.disk →
    match r s with
    | (.ok a, s') => post a s'.disk
    | (.error _, s') => fail s'.disk

/-- A run that leaves the disk as it is, whatever comes of it. -/
def Quiet (r : Run σ α) : Prop := ∀ s, (r s).2.disk = s.disk

section Rules

variable {pre : Disk → Prop} {post : α → Disk → Prop} {fail : Disk → Prop}

/-- What a run ensures on any disk of a kind it ensures on each. -/
lemma ensures_iff {r : Run σ α} :
    Ensures pre r post fail ↔
      ∀ s : Scene σ, pre s.disk →
        (∀ a, (r s).1 = .ok a → post a (r s).2.disk) ∧
        ∀ f, (r s).1 = .error f → fail (r s).2.disk := by
  unfold Ensures
  constructor
  · intro h s hs
    have hr := h s hs
    split at hr
    · rename_i a s' heq
      refine ⟨fun b hb => ?_, fun f hf => ?_⟩
      · rw [heq] at hb ⊢
        cases hb
        exact hr
      · rw [heq] at hf
        cases hf
    · rename_i f s' heq
      refine ⟨fun b hb => ?_, fun g hg => ?_⟩
      · rw [heq] at hb
        cases hb
      · rw [heq]
        exact hr
  · intro h s hs
    obtain ⟨hok, herr⟩ := h s hs
    split
    · rename_i a s' heq
      rw [heq] at hok
      exact hok a rfl
    · rename_i f s' heq
      rw [heq] at herr
      exact herr f rfl

namespace Ensures

protected lemma pure {a : α} (h : ∀ d, pre d → post a d) :
    Ensures pre (pure a : Run σ α) post fail := fun s hs => h s.disk hs

/-- **One run after another.** What the first leaves is what the second begins with. -/
protected theorem bind (mid : β → Disk → Prop) {r : Run σ β} {next : β → Run σ α}
    (hr : Ensures pre r mid fail)
    (hnext : ∀ b, Ensures (mid b) (next b) post fail) :
    Ensures pre (r >>= next) post fail := by
  intro s hs
  have h := hr s hs
  change match (Run.bind r next) s with
    | (.ok a, s') => post a s'.disk
    | (.error _, s') => fail s'.disk
  unfold Run.bind
  cases hrun : r s with
  | mk result s' =>
    rw [hrun] at h
    cases result with
    | ok b => exact hnext b s' h
    | error f => exact h

/-- More may be known before, and less said afterwards. -/
lemma weaken {r : Run σ α} {pre' : Disk → Prop} {post' : α → Disk → Prop} {fail' : Disk → Prop}
    (h : Ensures pre r post fail) (hpre : ∀ d, pre' d → pre d)
    (hpost : ∀ a d, post a d → post' a d) (hfail : ∀ d, fail d → fail' d) :
    Ensures pre' r post' fail' := by
  rw [ensures_iff] at h ⊢
  intro s hs
  obtain ⟨hok, herr⟩ := h s (hpre _ hs)
  exact ⟨fun a ha => hpost a _ (hok a ha), fun f hf => hfail _ (herr f hf)⟩

/-- What is said before a run apart from the disk can be used. -/
lemma of_pre {r : Run σ α} {p : Prop} (h : p → Ensures pre r post fail) :
    Ensures (fun d => pre d ∧ p) r post fail := fun s hs => h hs.2 s hs.1

/-- Both ways of a choice. -/
protected lemma ite {c : Prop} [Decidable c] {r r' : Run σ α}
    (ht : c → Ensures pre r post fail) (hf : ¬ c → Ensures pre r' post fail) :
    Ensures pre (if c then r else r') post fail := by
  split
  · rename_i h
    exact ht h
  · rename_i h
    exact hf h

/-- A result that may be a failure. -/
lemma ofExcept {e : Except Failure α} (hpost : ∀ a, e = .ok a → ∀ d, pre d → post a d)
    (hfail : ∀ d, pre d → fail d) : Ensures pre (ofExcept e : Run σ α) post fail := by
  intro s hs
  cases he : e with
  | error f => exact hfail _ hs
  | ok a => exact hpost a he _ hs

/-- What is on the disk. -/
lemma disk {post : Disk → Disk → Prop} (h : ∀ d, pre d → post d d) :
    Ensures pre (disk : Run σ Disk) post fail := fun s hs => h s.disk hs

/-- Something done to the disk. -/
lemma change {f : Disk → Disk × List Note × Except Failure α}
    (h : ∀ d, pre d → (∀ a, (f d).2.2 = .ok a → post a (f d).1) ∧
      ∀ e, (f d).2.2 = .error e → fail (f d).1) :
    Ensures pre (change f : Run σ α) post fail :=
  ensures_iff.mpr fun s hs => h s.disk hs

end Ensures

/-- A quiet run keeps what is said of the disk. -/
theorem Quiet.ensures {r : Run σ α} (hq : Quiet r) (hfail : ∀ d, pre d → fail d) :
    Ensures pre r (fun _ => pre) fail :=
  ensures_iff.mpr fun s hs => ⟨fun _ _ => by rw [hq s]; exact hs, fun _ _ => by
    rw [hq s]; exact hfail _ hs⟩

end Rules

-- A triple is proved by its rules. Without this, matching a triple against a rule may begin to
-- compute the run itself.
attribute [irreducible] Ensures

/-! ## Quiet runs -/

lemma quiet_note (ns : List Note) : Quiet (note ns : Run σ Unit) := fun _ => rfl

lemma quiet_happen (e : Event) : Quiet (happen e : Run σ Unit) := fun _ => rfl

lemma quiet_askExports (op : Operator σ) (prompt : String) (offered : List ExportRecord) :
    Quiet (askExports op prompt offered) := fun _ => rfl

lemma quiet_askStyle (op : Operator σ) (prompt : String) : Quiet (askStyle op prompt) :=
  fun _ => rfl

lemma quiet_pure (a : α) : Quiet (pure a : Run σ α) := fun _ => rfl

lemma Quiet.bind {r : Run σ β} {next : β → Run σ α} (hr : Quiet r) (hn : ∀ b, Quiet (next b)) :
    Quiet (r >>= next) := by
  intro s
  change (Run.bind r next s).2.disk = s.disk
  have h := hr s
  unfold Run.bind
  split
  · rename_i b s' heq
    rw [heq] at h
    rw [hn b s']
    exact h
  · rename_i f s' heq
    rw [heq] at h
    exact h

lemma Quiet.forM {γ : Type} {f : γ → Run σ Unit} (hf : ∀ c, Quiet (f c)) (cs : List γ) :
    Quiet (cs.forM f) := by
  induction cs with
  | nil => exact quiet_pure ()
  | cons c cs ih => exact (hf c).bind fun _ => ih

end Run

end ThemeOverride
