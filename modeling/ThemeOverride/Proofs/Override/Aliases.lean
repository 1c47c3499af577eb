import Mathlib.Data.Set.Function
import Mathlib.Order.Monotone.Basic
import ThemeOverride.Proofs.Override.Names
import ThemeOverride.Proofs.Override.Words

/-!
# Aliases of extended exports

An override imports each export that it extends under an alias, its name behind `source` or
`Source`. An alias is longer than the name it is made from, so that aliases of aliases never come
back to an earlier name. Of names that begin in ASCII it tells which one it was made from: the case
of its first letter tells whether the name began in upper case, and if it did not, its first
character is found again in lower case.

## Main definitions

* `ThemeOverride.startsInAscii` — a name whose first character is an ASCII character.

## Main results

* `ThemeOverride.sourceLocalName_injOn` — names that begin in ASCII have different aliases.
* `ThemeOverride.iterate_sourceLocalName_injective` — aliases of aliases are all different.
* `ThemeOverride.aliases_collisionFree` — aliases clash neither with each other nor with names.
-/

namespace ThemeOverride

open Text

/-- Whether a name begins with an ASCII character, which an empty name does not. -/
def startsInAscii (name : String) : Bool := name.toList.head?.any fun c => decide (c.toNat < 128)

/-! ## Characters of aliases -/

lemma startsInAscii_iff {name : String} :
    startsInAscii name ↔ ∃ c rest, name.toList = c :: rest ∧ c.toNat < 128 := by
  unfold startsInAscii
  cases name.toList <;> simp

/-- An alias begins with one of two letters. -/
lemma head?_sourceLocalName (name : String) :
    (sourceLocalName name).toList.head? = some 's' ∨
      (sourceLocalName name).toList.head? = some 'S' := by
  cases h : name.toList with
  | nil =>
    obtain rfl : name = "" := String.toList_eq_nil_iff.mp h
    exact Or.inl rfl
  | cons c rest =>
    rw [toList_sourceLocalName h]
    split
    · exact Or.inr rfl
    · exact Or.inl rfl

lemma startsInAscii_sourceLocalName (name : String) : startsInAscii (sourceLocalName name) := by
  unfold startsInAscii
  rcases head?_sourceLocalName name with h | h <;> rw [h] <;> rfl

/-- An alias is longer than its name. -/
lemma length_lt_length_sourceLocalName (name : String) :
    name.toList.length < (sourceLocalName name).toList.length := by
  cases h : name.toList with
  | nil =>
    obtain rfl : name = "" := String.toList_eq_nil_iff.mp h
    decide
  | cons c rest =>
    have hpos := List.length_pos_iff.mpr (upper_ne_nil c)
    rw [toList_sourceLocalName h]
    split
    · simp
    · have hsix : "source".toList.length = 6 := rfl
      rw [List.length_append, List.length_append, List.length_cons, hsix]
      omega

/-! ## Names and their aliases -/

/-- **Names that begin in ASCII have different aliases.** Across the two beginnings the first
letters differ; behind `Source` stands the name, and behind `source` the name with its first
character in upper case, which it was not before. -/
theorem sourceLocalName_injOn : Set.InjOn sourceLocalName {name | startsInAscii name} := by
  intro a ha b hb h
  obtain ⟨c, s, hc, hcascii⟩ := startsInAscii_iff.mp ha
  obtain ⟨d, t, hd, hdascii⟩ := startsInAscii_iff.mp hb
  have hlist := congrArg String.toList h
  rw [toList_sourceLocalName hc, toList_sourceLocalName hd, upper_of_ascii hcascii,
    upper_of_ascii hdascii, isUpper_of_ascii hcascii, isUpper_of_ascii hdascii] at hlist
  apply String.toList_inj.mp
  rw [hc, hd]
  by_cases hcupper : c.isUpper <;> by_cases hdupper : d.isUpper
  · rw [if_pos hcupper, if_pos hdupper] at hlist
    exact List.append_cancel_left hlist
  · rw [if_pos hcupper, if_neg hdupper] at hlist
    exact absurd (List.cons.inj hlist).1 (by decide)
  · rw [if_neg hcupper, if_pos hdupper] at hlist
    exact absurd (List.cons.inj hlist).1 (by decide)
  · rw [if_neg hcupper, if_neg hdupper] at hlist
    obtain ⟨hfirst, hrest⟩ := List.cons.inj (List.append_cancel_left hlist)
    have hlower := congrArg Char.toLower hfirst
    rw [toLower_toUpper_of_ascii hcascii hcupper, toLower_toUpper_of_ascii hdascii hdupper] at hlower
    rw [hlower]
    exact congrArg _ hrest

/-- **Aliases of aliases** never come back to an earlier one. -/
theorem iterate_sourceLocalName_injective (name : String) :
    Function.Injective fun n => sourceLocalName^[n] name := by
  have hlonger : StrictMono fun n => (sourceLocalName^[n] name).toList.length := by
    refine strictMono_nat_of_lt_succ fun n => ?_
    rw [Function.iterate_succ_apply']
    exact length_lt_length_sourceLocalName _
  intro m n h
  exact hlonger.injective (congrArg (fun s : String => s.toList.length) h)

/-- Aliases of aliases of names that begin in ASCII are different as well. -/
lemma iterate_sourceLocalName_injOn (n : Nat) :
    Set.InjOn sourceLocalName^[n] {name | startsInAscii name} :=
  sourceLocalName_injOn.iterate (fun name _ => startsInAscii_sourceLocalName name) n

/-- **Aliases clash neither with each other nor with names.** Different names that begin in ASCII
have different aliases, and so do their aliases, however often they are taken; an alias begins with
a letter and is not the name that it is made from; aliases of aliases of one name are all
different. An override whose extended exports have names that begin in ASCII imports all of them
under different names. -/
theorem aliases_collisionFree :
    (∀ a b, startsInAscii a → startsInAscii b → a ≠ b → sourceLocalName a ≠ sourceLocalName b) ∧
    (∀ name, sourceLocalName name ≠ name ∧
      ∃ c rest, (sourceLocalName name).toList = c :: rest ∧ c.isAlpha) ∧
    (∀ name m n, m ≠ n → sourceLocalName^[m] name ≠ sourceLocalName^[n] name) ∧
    (∀ a b n, startsInAscii a → startsInAscii b → a ≠ b →
      sourceLocalName^[n] a ≠ sourceLocalName^[n] b) ∧
    ∀ plan : OverridePlan, (plan.allExports.map (·.name)).Nodup →
      (∀ r ∈ plan.extended, startsInAscii r.name) → plan.aliases.Nodup := by
  refine ⟨fun a b ha hb => sourceLocalName_injOn.ne ha hb, fun name => ⟨fun heq => ?_, ?_⟩,
    fun name m n => (iterate_sourceLocalName_injective name).ne,
    fun a b n ha hb => (iterate_sourceLocalName_injOn n).ne ha hb, fun plan hnames hascii => ?_⟩
  · have hlonger := length_lt_length_sourceLocalName name
    rw [heq] at hlonger
    exact Nat.lt_irrefl _ hlonger
  · rcases head?_sourceLocalName name with h | h <;>
      obtain ⟨rest, hrest⟩ := List.head?_eq_some_iff.mp h
    · exact ⟨'s', rest, hrest, by decide⟩
    · exact ⟨'S', rest, hrest, by decide⟩
  · have hextended : (plan.extended.map (·.name)).Nodup :=
      (List.nodup_append'.mp (plan.nodup_referred_extended hnames)).2.1
    have haliases : plan.aliases = (plan.extended.map (·.name)).map sourceLocalName := by
      rw [List.map_map]
      rfl
    rw [haliases]
    refine hextended.map_on fun a ha b hb h => ?_
    obtain ⟨r, hr, rfl⟩ := List.mem_map.mp ha
    obtain ⟨r', hr', rfl⟩ := List.mem_map.mp hb
    exact sourceLocalName_injOn (hascii r hr) (hascii r' hr') h

/-- Beyond ASCII two names can have one alias: the micro sign and the letter mu are the same in
upper case. -/
example : sourceLocalName "µ" = sourceLocalName "μ" := by decide

end ThemeOverride
