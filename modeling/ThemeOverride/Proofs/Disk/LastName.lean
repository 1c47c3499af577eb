import Mathlib.Data.List.Basic
import ThemeOverride.Proofs.Disk.Growth

/-!
# The last name of a path

Links make a path lead elsewhere, but the last name of a path is kept where it matters: a path to a
file does not lead up in the end, and a file that is created at a path has its last name.

## Main results

* `ThemeOverride.Disk.getLast?_of_vacancy` — a vacancy has the last name of its path.
* `ThemeOverride.Disk.exists_getLast?_of_isFile` — a path to a file has a last name, which does not
  lead up.
-/

namespace ThemeOverride.Disk

variable {d : Disk} {p : Path} {found : Place} {name : String} {content : List UInt8}

section Names

variable {enter : Place → List String → Except DiskCause Found}

lemma getLast?_of_followNames_vacant (hup : name ≠ "..")
    (he : ∀ p ns, ns.getLast? = some name → enter p ns = .ok (.vacant found) →
      found.getLast? = some name) :
    ∀ (names : List String) (place : Place), names.getLast? = some name →
      d.followNames enter false place names = .ok (.vacant found) → found.getLast? = some name := by
  intro names
  induction names with
  | nil => intro place hlast; cases hlast
  | cons first rest ih =>
    intro place hlast hf
    have hrest : rest ≠ [] → rest.getLast? = some name := fun h => by
      rw [← hlast, ← List.singleton_append, List.getLast?_append_of_ne_nil _ h]
    obtain ⟨hfirst, hf⟩ | ⟨-, ⟨-, rfl, rfl⟩ | ⟨-, hf⟩ | ⟨target, -, hend, hf⟩⟩ :=
      followNames_vacant_cases hf
    · refine ih _ (hrest ?_) hf
      rintro rfl
      exact hup ((Option.some.inj hlast).symm.trans (beq_iff_eq.mp hfirst))
    · rw [List.getLast?_append]
      exact congrArg (Option.or · _) hlast
    · refine ih _ (hrest ?_) hf
      rintro rfl
      simp [followNames] at hf
    · have hne : rest ≠ [] := by
        rintro rfl
        cases hend
      exact he _ _ ((List.getLast?_append_of_ne_nil _ hne).trans (hrest hne)) hf

lemma getLast?_of_followLinks_vacant (hup : name ≠ "..") (n : Nat) (place : Place)
    (names : List String) (hlast : names.getLast? = some name)
    (hf : d.followLinks false n place names = .ok (.vacant found)) : found.getLast? = some name := by
  induction n generalizing place names with
  | zero =>
    rw [followLinks] at hf
    exact getLast?_of_followNames_vacant hup (fun _ _ _ hx => by cases hx) names place hlast hf
  | succ n ih =>
    rw [followLinks] at hf
    exact getLast?_of_followNames_vacant hup (fun p ns hns hx => ih p ns hns hx) names place hlast hf

/-- The last name on a way to a file does not lead up. -/
lemma exists_getLast?_of_followNames
    (he : ∀ p ns, enter p ns = .ok (.node found (.file content)) →
      ∃ name, ns.getLast? = some name ∧ name ≠ "..") :
    ∀ (names : List String) (place : Place),
      d.followNames enter true place names = .ok (.node found (.file content)) →
      ∃ name, names.getLast? = some name ∧ name ≠ ".." := by
  intro names
  induction names with
  | nil => intro place hf; simp [followNames] at hf
  | cons first rest ih =>
    intro place hf
    have hrest : (∃ name, rest.getLast? = some name ∧ name ≠ "..") →
        ∃ name, (first :: rest).getLast? = some name ∧ name ≠ ".." := by
      rintro ⟨name, hname, hup⟩
      have hne : rest ≠ [] := by
        rintro rfl
        cases hname
      exact ⟨name, by rw [← List.singleton_append, List.getLast?_append_of_ne_nil _ hne, hname], hup⟩
    rw [followNames] at hf
    split at hf
    · exact hrest (ih _ hf)
    · rename_i hfirst
      have hup : first ≠ ".." := by simpa using hfirst
      have hend : rest = [] → ∃ name, (first :: rest).getLast? = some name ∧ name ≠ ".." := by
        rintro rfl
        exact ⟨first, rfl, hup⟩
      rcases eq_or_ne rest [] with h | hne
      · exact hend h
      · dsimp only at hf
        split at hf
        · split at hf <;> cases hf
        · exact hrest (ih _ hf)
        · split at hf
          · rename_i h
            exact hend (List.isEmpty_iff.mp h)
          · cases hf
        · rw [if_neg (by simp)] at hf
          obtain ⟨name, hname, hup⟩ := he _ _ hf
          rw [List.getLast?_append_of_ne_nil _ hne] at hname
          exact hrest ⟨name, hname, hup⟩

lemma exists_getLast?_of_followLinks (n : Nat) (place : Place) (names : List String)
    (hf : d.followLinks true n place names = .ok (.node found (.file content))) :
    ∃ name, names.getLast? = some name ∧ name ≠ ".." := by
  induction n generalizing place names with
  | zero =>
    rw [followLinks] at hf
    exact exists_getLast?_of_followNames (fun _ _ hx => by cases hx) names place hf
  | succ n ih =>
    rw [followLinks] at hf
    exact exists_getLast?_of_followNames (fun p ns hx => ih p ns hx) names place hf

end Names

/-- **A vacancy has the last name of its path**, whatever links are on the way. -/
theorem getLast?_of_vacancy (h : d.vacancy p = .ok found) (hlast : p.names.getLast? = some name)
    (hup : name ≠ "..") : found.getLast? = some name := by
  unfold vacancy at h
  split at h
  · cases h
  · cases h
  · rename_i place hf
    cases h
    exact getLast?_of_followLinks_vacant hup _ _ _ hlast hf

/-- **A path to a file has a last name**, which does not lead up. -/
theorem exists_getLast?_of_isFile (h : d.isFile p = true) :
    ∃ name, p.names.getLast? = some name ∧ name ≠ ".." := by
  unfold isFile nodeAt? at h
  split at h
  · rename_i content hnode
    split at hnode
    · rename_i place node hf
      cases hnode
      exact exists_getLast?_of_followLinks _ _ _ hf
    · cases hnode
  · cases h

end ThemeOverride.Disk
