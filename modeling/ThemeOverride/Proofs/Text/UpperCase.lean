import ThemeOverride.Proofs.Script.Template
import ThemeOverride.Text.Character

/-!
# Words in upper case

The upper-case form of a character that may begin a word is made of characters that may stand in
one: a word stays a word when its first character is put in upper case.

## Main results

* `ThemeOverride.upper_ne_nil` — every character has an upper-case form.
* `ThemeOverride.toLower_toUpper_of_ascii` — in ASCII, upper case tells what it was made from.
* `ThemeOverride.isNamePart_upper` — what the upper-case form of such a character is made of.
-/

namespace ThemeOverride

open Script Text

lemma mapRuns_eq_some {c : Nat} {runs : List (Nat × Nat × Nat × Int)} {d : Char}
    (h : mapRuns c runs = some d) : ∃ first last step distance,
      (first, last, step, distance) ∈ runs ∧ first ≤ c ∧ c ≤ last ∧
        d = Char.ofNat ((c : Int) + distance).toNat := by
  induction runs with
  | nil => cases h
  | cons run rest ih =>
    obtain ⟨first, last, step, distance⟩ := run
    unfold mapRuns at h
    split at h
    · rename_i hin
      unfold inRun at hin
      simp only [Bool.and_eq_true, decide_eq_true_eq] at hin
      cases h
      exact ⟨first, last, step, distance, List.mem_cons_self, hin.1.1, hin.1.2, rfl⟩
    · obtain ⟨first, last, step, distance, hmem, hrest⟩ := ih h
      exact ⟨first, last, step, distance, List.mem_cons_of_mem _ hmem, hrest⟩

lemma mem_of_expand? {c : Nat} {table : List (Nat × List Nat)} {image : List Char}
    (h : expand? c table = some image) : ∃ codes, (c, codes) ∈ table ∧ codes.map Char.ofNat = image := by
  obtain ⟨codes, hlookup, himage⟩ := Option.map_eq_some_iff.mp h
  obtain ⟨before, after, heq, -⟩ := List.lookup_eq_some_iff.mp hlookup
  exact ⟨codes, by rw [heq]; simp, himage⟩

/-- Every character has an upper-case form. -/
lemma upper_ne_nil (c : Char) : upper c ≠ [] := by
  have hexpansions : ∀ p ∈ upperExpansions, p.2 ≠ [] := by decide
  unfold upper
  split
  · exact List.cons_ne_nil _ _
  · cases hexpand : expand? c.toNat upperExpansions with
    | none => exact List.cons_ne_nil _ _
    | some image =>
      obtain ⟨codes, hmem, rfl⟩ := mem_of_expand? hexpand
      exact fun hnil => hexpansions _ hmem (List.map_eq_nil_iff.mp hnil)

/-- An ASCII character that is not in upper case is found again in its upper-case form. -/
lemma toLower_toUpper_of_ascii {c : Char} (h : c.toNat < 128) (hupper : ¬ c.isUpper) :
    c.toUpper.toLower = c := by
  have hall : ∀ n < 128, ¬ (Char.ofNat n).isUpper →
      (Char.ofNat n).toUpper.toLower = Char.ofNat n := by
    decide
  exact of_ascii (p := fun c => ¬ c.isUpper → c.toUpper.toLower = c) hall h hupper

/-- Characters in upper case that are the image of one other character may stand in words. -/
lemma isNamePart_of_upperRuns : ∀ run ∈ upperRuns, ∀ n ∈ List.range (run.2.1 + 1 - run.1),
    isNamePart (Char.ofNat (((run.1 + n : Nat) : Int) + run.2.2.2).toNat) := by
  decide +kernel

/-- So may those that are the image of one character together. -/
lemma isNamePart_of_upperExpansions : ∀ p ∈ upperExpansions, ∀ n ∈ p.2,
    isNamePart (Char.ofNat n) := by
  decide

lemma isNamePart_toUpper : ∀ n < 128, isNameStart (Char.ofNat n) →
    isNamePart (Char.ofNat n).toUpper := by
  decide

/-- The upper-case form of what may begin a word may stand in a word. -/
lemma isNamePart_upper {c : Char} (h : isNameStart c) : ∀ d ∈ upper c, isNamePart d := by
  intro d hd
  unfold upper at hd
  split at hd
  · rename_i hc
    rw [List.mem_singleton.mp hd]
    exact of_ascii (p := fun c => isNameStart c → isNamePart c.toUpper) isNamePart_toUpper hc h
  · cases hexpand : expand? c.toNat upperExpansions with
    | some image =>
      rw [hexpand, Option.getD_some] at hd
      obtain ⟨codes, hmem, rfl⟩ := mem_of_expand? hexpand
      obtain ⟨n, hn, rfl⟩ := List.mem_map.mp hd
      exact isNamePart_of_upperExpansions _ hmem n hn
    | none =>
      rw [hexpand, Option.getD_none, List.mem_singleton] at hd
      rw [hd]
      cases hruns : mapRuns c.toNat upperRuns with
      | none => exact isNamePart_of_isNameStart h
      | some e =>
        obtain ⟨first, last, step, distance, hmem, hfirst, hlast, rfl⟩ := mapRuns_eq_some hruns
        have hpart := isNamePart_of_upperRuns _ hmem (c.toNat - first)
          (List.mem_range.mpr (by dsimp only; omega))
        have hadd : first + (c.toNat - first) = c.toNat := by omega
        dsimp only at hpart
        rw [hadd] at hpart
        exact hpart

end ThemeOverride
