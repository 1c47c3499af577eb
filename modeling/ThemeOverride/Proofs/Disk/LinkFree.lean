import ThemeOverride.Proofs.Disk.Additions
import ThemeOverride.Proofs.Disk.Resolve

/-!
# Disks without links

On a disk without links a plain path leads to the place that its names spell. So what comes into
being at such paths is seen from the places that are new.

## Main definitions

* `ThemeOverride.Disk.LinkFree` — no link lies on the disk.

## Main results

* `ThemeOverride.Disk.Gains.exists_new` — where a plain path comes into being, a place at or above it
  is new.
* `ThemeOverride.Disk.LinkFree.follow_ne_linkLoop` — no path leads in a circle.
-/

namespace ThemeOverride.Disk

/-- No link lies on the disk. -/
def LinkFree (d : Disk) : Prop := ∀ e ∈ d.entries, ∀ target, e.2 ≠ .link target

lemma mem_entries_of_node? {d : Disk} {place : Place} {node : Node} (h : d.node? place = some node)
    (hne : place ≠ []) : (place, node) ∈ d.entries := by
  unfold node? at h
  rw [if_neg (by simpa using hne)] at h
  obtain ⟨earlier, later, hsplit, -⟩ := List.lookup_eq_some_iff.mp h
  simp [hsplit]

lemma LinkFree.node?_ne_link {d : Disk} (h : d.LinkFree) (place : Place) (target : Path) :
    d.node? place ≠ some (.link target) := by
  intro hn
  have hne : place ≠ [] := by
    rintro rfl
    simp [node?] at hn
  exact h _ (mem_entries_of_node? hn hne) target rfl

section Following

variable {d before after : Disk} {enter enter' : Place → List String → Except DiskCause Found}
  {atEnd : Bool} {names : List String} {place found : Place} {node : Node}

/-- Names lead alike where the places on their way hold the same. -/
lemma followNames_congr (hl : after.LinkFree) (hup : ".." ∉ names)
    (h : ∀ q, q <+: names → before.node? (place ++ q) = after.node? (place ++ q)) :
    before.followNames enter atEnd place names = after.followNames enter' atEnd place names := by
  induction names generalizing place with
  | nil => rfl
  | cons name rest ih =>
    have hname : (name == "..") = false := by simpa using fun he => hup (by simp [he])
    have hplace := h [name] (by simp)
    have hrest : before.followNames enter atEnd (place ++ [name]) rest =
        after.followNames enter' atEnd (place ++ [name]) rest := by
      refine ih (fun hn => hup (List.mem_cons_of_mem _ hn)) fun q hq => ?_
      have hcons := h (name :: q) (by simpa using hq)
      simpa using hcons
    rw [followNames, followNames, hname]
    dsimp only
    rw [hplace, hrest]
    cases hn : after.node? (place ++ [name]) with
    | none => rfl
    | some other =>
      cases other with
      | directory => rfl
      | file content => rfl
      | link target => exact absurd hn (hl.node?_ne_link _ _)

/-- Names lead to the place that they spell. -/
lemma isSome_of_followNames (hl : d.LinkFree) (hup : ".." ∉ names)
    (h : d.followNames enter atEnd place names = .ok (.node found node)) :
    names = [] ∨ (d.node? (place ++ names)).isSome = true := by
  induction names generalizing place with
  | nil => exact Or.inl rfl
  | cons name rest ih =>
    have hname : ¬ (name == "..") = true := by simpa using fun he => hup (by simp [he])
    refine Or.inr ?_
    rw [followNames, if_neg hname] at h
    dsimp only at h
    cases hn : d.node? (place ++ [name]) with
    | none => rw [hn] at h; dsimp only at h; split at h <;> cases h
    | some other =>
      rw [hn] at h
      cases other with
      | directory =>
        rcases ih (fun hr => hup (List.mem_cons_of_mem _ hr)) h with rfl | hsome
        · simp [hn]
        · simpa using hsome
      | file content =>
        dsimp only at h
        split at h
        · rename_i hr
          simp [List.isEmpty_iff.mp hr, hn]
        · cases h
      | link target => exact absurd hn (hl.node?_ne_link _ _)

lemma followNames_ne_linkLoop (hl : d.LinkFree) :
    d.followNames enter atEnd place names ≠ .error .linkLoop := by
  induction names generalizing place with
  | nil => simp [followNames]
  | cons name rest ih =>
    rw [followNames]
    split
    · exact ih
    · dsimp only
      cases hn : d.node? (place ++ [name]) with
      | none => dsimp only; split <;> simp
      | some other =>
        cases other with
        | directory => exact ih
        | file content => dsimp only; split <;> simp
        | link target => exact absurd hn (hl.node?_ne_link _ _)

/-- **No path leads in a circle.** -/
theorem LinkFree.follow_ne_linkLoop (hl : d.LinkFree) (p : Path) :
    d.follow atEnd p ≠ .error .linkLoop := by
  unfold follow
  rw [followLinks_eq]
  exact followNames_ne_linkLoop hl

end Following

section Gaining

variable {before after : Disk} {p : Path}

/-- **Where a plain path comes into being**, something lies at its place, and a place at or above it
is new.

**Proof sketch.** If all places on the way held something before, the way would have led there
before. -/
theorem Gains.exists_new (h : Gains before after p) (hk : before.Extends after)
    (hl : after.LinkFree) (hp : p.IsPlain) :
    (after.node? p.names).isSome = true ∧ ∃ q, q <+: p.names ∧ before.node? q = none ∧
      (after.node? q).isSome = true := by
  have hstart : ∀ d : Disk, d.start p = [] := fun d => start_of_isAbsolute hp.isAbsolute
  obtain ⟨hbefore, hafter⟩ := h
  constructor
  · obtain ⟨node, hnode⟩ := Option.isSome_iff_exists.mp hafter
    unfold nodeAt? at hnode
    split at hnode
    · rename_i found held hfollow
      unfold follow at hfollow
      rw [hstart, followLinks_eq] at hfollow
      rcases isSome_of_followNames hl hp.noUp hfollow with hnil | hsome
      · simp [hnil, node?]
      · exact hsome
    · cases hnode
  · by_contra hnone
    have hnone : ∀ q, q <+: p.names → before.node? q = none → (after.node? q).isSome = false :=
      fun q hq hb => by
        rw [Bool.eq_false_iff]
        exact fun ha => hnone ⟨q, hq, hb, ha⟩
    have hsame : ∀ q, q <+: p.names → before.node? ([] ++ q) = after.node? ([] ++ q) := by
      intro q hq
      rw [List.nil_append]
      cases ha : after.node? q with
      | some node =>
        rcases hk.eq_none_or_eq ha with hb | hb
        · have hsome := hnone q hq hb
          rw [ha] at hsome
          cases hsome
        · exact hb
      | none =>
        cases hb : before.node? q with
        | none => rfl
        | some node => rw [hk.keeps _ _ hb] at ha; cases ha
    have hfollow : before.follow true p = after.follow true p := by
      unfold follow
      rw [hstart, hstart, followLinks_eq, followLinks_eq,
        followNames_congr hl hp.noUp hsame]
    rw [«exists», nodeAt?, hfollow] at hbefore
    rw [«exists», nodeAt?, hbefore] at hafter
    cases hafter

end Gaining

end ThemeOverride.Disk
