import Mathlib.Data.List.Nodup
import Mathlib.Data.List.Pairwise
import ThemeOverride.Proofs.Script.Stripping
import ThemeOverride.Text.Encoding

/-!
# Replacing stretches of a text in place

A splice replaces stretches of a text one after the other, the last first, while the places of all
of them are told for the text as it was. Where the stretches lie apart, this comes to the same as
replacing all of them at once: what stands before a stretch has not moved when its turn comes.

## Main definitions

* `ThemeOverride.Script.Replacement.Fits` — a stretch that is not empty, with what it keeps in it.
* `ThemeOverride.Script.Replacement.Apart` — two stretches that share no place.
* `ThemeOverride.Script.keptStretches` — the stretches of a text that replacements leave.
* `ThemeOverride.Script.replaceAll` — replaces stretches of a text at once.

## Main results

* `ThemeOverride.Script.splice_eq_foldr` — a splice in the order of the text.
* `ThemeOverride.Script.foldr_apply` — what the last replacements have made of a text.
* `ThemeOverride.Script.splice_exact` — a splice replaces all stretches at once.
-/

namespace ThemeOverride.Script

variable {α : Type}

namespace Replacement

/-- A replacement is of a stretch of the first `length` places that is not empty, and it keeps
nothing or a stretch within. -/
structure Fits (r : Replacement) (length : Nat) : Prop where
  start_lt : r.start < r.stop
  stop_le : r.stop ≤ length
  inner_within : ∀ inner ∈ r.inner,
    r.start ≤ inner.1 ∧ inner.1 ≤ inner.2 ∧ inner.2 ≤ r.stop

instance (r : Replacement) (length : Nat) : Decidable (r.Fits length) :=
  decidable_of_iff (r.start < r.stop ∧ r.stop ≤ length ∧ ∀ inner ∈ r.inner,
      r.start ≤ inner.1 ∧ inner.1 ≤ inner.2 ∧ inner.2 ≤ r.stop)
    ⟨fun h => ⟨h.1, h.2.1, h.2.2⟩, fun h => ⟨h.1, h.2, h.3⟩⟩

lemma Shortens.fits {r : Replacement} {length : Nat} (h : r.Shortens length) : r.Fits length where
  start_lt := h.start_lt
  stop_le := h.stop_le
  inner_within inner hinner :=
    have hwithin := h.inner_within inner.1 inner.2 hinner
    ⟨hwithin.1, hwithin.2.1, hwithin.2.2.1⟩

/-- Two replacements have no place in common. -/
def Apart (r r' : Replacement) : Prop := r.stop ≤ r'.start ∨ r'.stop ≤ r.start

instance (r r' : Replacement) : Decidable (r.Apart r') :=
  inferInstanceAs (Decidable (_ ∨ _))

/-- What a replacement keeps of a text. -/
def kept (r : Replacement) (s : List α) : List α :=
  r.inner.toList.flatMap fun stretch => slice s stretch.1 stretch.2

/-- Replacements in the order of the text. -/
def inOrder (parts : List Replacement) : List Replacement :=
  parts.mergeSort fun a b => decide (a.start ≤ b.start)

/-- Replacements in the order in which a splice makes them. -/
def lastFirst (parts : List Replacement) : List Replacement :=
  parts.mergeSort fun a b => decide (b.start ≤ a.start)

end Replacement

/-- The stretches of a text between two places that are left by replacements in the order of the
text: what lies between the replacements, and what they keep. -/
def keptStretches (start stop : Nat) : List Replacement → List (Nat × Nat)
  | [] => [(start, stop)]
  | r :: rest => (start, r.start) :: r.inner.toList ++ keptStretches r.stop stop rest

/-- Replaces stretches of a text at once. -/
def replaceAll (parts : List Replacement) (s : List α) : List α :=
  (keptStretches 0 s.length (Replacement.inOrder parts)).flatMap fun stretch =>
    slice s stretch.1 stretch.2

/-! ## The order of replacements -/

namespace Replacement

lemma Apart.symm {r r' : Replacement} (h : r.Apart r') : r'.Apart r := Or.symm h

/-- Replacements that lie apart are in the order of the text where their starts are. -/
lemma pairwise_inOrder {parts : List Replacement} (hstart : ∀ r ∈ parts, r.start < r.stop)
    (hapart : parts.Pairwise Apart) :
    (inOrder parts).Pairwise fun a b => a.stop ≤ b.start := by
  have hsorted : (inOrder parts).Pairwise fun a b => decide (a.start ≤ b.start) := by
    refine List.pairwise_mergeSort (fun a b c hab hbc => ?_) (fun a b => ?_) parts
    · exact decide_eq_true (Nat.le_trans (of_decide_eq_true hab) (of_decide_eq_true hbc))
    · simpa using Nat.le_total a.start b.start
  have hperm : (inOrder parts).Perm parts := List.mergeSort_perm parts _
  have hboth := hsorted.and ((hperm.pairwise_iff fun h => Apart.symm h).mpr hapart)
  refine hboth.imp_of_mem fun {a b} _ hb hab => ?_
  have hle := of_decide_eq_true hab.1
  have hlt := hstart b (hperm.mem_iff.mp hb)
  rcases hab.2 with h | h
  · exact h
  · omega

/-- A splice makes replacements in the order of the text from the last to the first. -/
lemma lastFirst_eq_reverse {parts ordered : List Replacement} (hperm : ordered.Perm parts)
    (h : ordered.Pairwise fun a b => a.start < b.start) : lastFirst parts = ordered.reverse := by
  have hsorted : (lastFirst parts).Pairwise fun a b => decide (b.start ≤ a.start) := by
    refine List.pairwise_mergeSort (fun a b c hab hbc => ?_) (fun a b => ?_) parts
    · exact decide_eq_true (Nat.le_trans (of_decide_eq_true hbc) (of_decide_eq_true hab))
    · simpa using Nat.le_total b.start a.start
  have hsame : (lastFirst parts).Perm ordered := (List.mergeSort_perm parts _).trans hperm.symm
  have hnodup : (ordered.map (·.start)).Nodup := List.pairwise_map.mpr (h.imp fun hab => hab.ne)
  refine (hsame.trans ordered.reverse_perm.symm).eq_of_pairwise (fun a b ha hb hab hba => ?_)
    hsorted (List.pairwise_reverse.mpr (h.imp fun hab => decide_eq_true hab.le))
  have hstart : a.start = b.start := Nat.le_antisymm (of_decide_eq_true hba) (of_decide_eq_true hab)
  exact List.inj_on_of_nodup_map hnodup (hsame.mem_iff.mp ha) (List.mem_reverse.mp hb) hstart

end Replacement

lemma splice_eq_lastFirst (parts : List Replacement) (s : List α) :
    splice parts s = (Replacement.lastFirst parts).foldl (fun s r => r.apply s) s := rfl

/-- **A splice in the order of the text** makes the replacements from the last to the first. -/
lemma splice_eq_foldr {parts ordered : List Replacement} (hperm : ordered.Perm parts)
    (h : ordered.Pairwise fun a b => a.start < b.start) (s : List α) :
    splice parts s = ordered.foldr (fun r s => r.apply s) s := by
  rw [splice_eq_lastFirst, Replacement.lastFirst_eq_reverse hperm h, List.foldl_reverse]

/-! ## Replacements one after the other -/

namespace Replacement

variable {r : Replacement} {s tail : List α}

lemma apply_eq (r : Replacement) (s : List α) :
    r.apply s = s.take r.start ++ r.kept s ++ s.drop r.stop := by
  unfold apply kept
  cases r.inner with
  | none => rfl
  | some inner => simp

/-- What a replacement keeps is the same in every text with the same beginning. -/
lemma kept_take_append (hfits : r.Fits s.length) : r.kept (s.take r.stop ++ tail) = r.kept s := by
  unfold kept
  cases hinner : r.inner with
  | none => rfl
  | some inner =>
    obtain ⟨-, -, hb⟩ := hfits.inner_within inner hinner
    have hlength : inner.2 ≤ (s.take r.stop).length := by
      rw [List.length_take_of_le hfits.stop_le]
      exact hb
    simp only [Option.toList_some, List.flatMap_singleton, slice]
    rw [List.take_append_of_le_length hlength, List.take_take, Nat.min_eq_left hb]

/-- **One replacement** before what the later ones have made of a text: it takes what it keeps, and
what stands before it, from the text as it was. -/
lemma apply_take_append (hfits : r.Fits s.length) :
    r.apply (s.take r.stop ++ tail) = s.take r.start ++ r.kept s ++ tail := by
  have hlength : (s.take r.stop).length = r.stop := List.length_take_of_le hfits.stop_le
  have htake : (s.take r.stop ++ tail).take r.start = s.take r.start := by
    rw [List.take_append_of_le_length (by rw [hlength]; exact hfits.start_lt.le), List.take_take,
      Nat.min_eq_left hfits.start_lt.le]
  have hdrop : (s.take r.stop ++ tail).drop r.stop = tail := List.drop_left' hlength
  rw [apply_eq, htake, kept_take_append hfits, hdrop]

end Replacement

/-- A stretch of a text behind what comes before it. -/
lemma take_append_slice {s : List α} {a b : Nat} (h : a ≤ b) :
    s.take a ++ slice s a b = s.take b := by
  have hsplit := List.take_append_drop a (s.take b)
  rwa [List.take_take, Nat.min_eq_left h] at hsplit

/-- **What the last replacements have made of a text**, in the order of the text and from a place
on: what comes before this place is as it was, and behind it stands what they leave. -/
lemma foldr_apply {s : List α} {start : Nat} {parts : List Replacement} (hlength : start ≤ s.length)
    (hfits : ∀ r ∈ parts, r.Fits s.length) (hstart : ∀ r ∈ parts, start ≤ r.start)
    (hordered : parts.Pairwise fun a b => a.stop ≤ b.start) :
    parts.foldr (fun r t => r.apply t) s =
      s.take start ++ (keptStretches start s.length parts).flatMap fun stretch =>
        slice s stretch.1 stretch.2 := by
  induction parts generalizing start with
  | nil =>
    rw [keptStretches, List.flatMap_singleton, take_append_slice hlength, List.take_length]
    rfl
  | cons r rest ih =>
    obtain ⟨hr, hrest⟩ := List.forall_mem_cons.mp hfits
    obtain ⟨hbehind, hordered⟩ := List.pairwise_cons.mp hordered
    have hbefore := hstart r List.mem_cons_self
    rw [List.foldr_cons, ih hr.stop_le hrest hbehind hordered, Replacement.apply_take_append hr,
      keptStretches, List.cons_append, List.flatMap_cons, List.flatMap_append,
      ← take_append_slice hbefore]
    simp only [List.append_assoc]
    rfl

section

variable {parts : List Replacement} {s : List α}

/-- The replacements that a splice is made of, in the order of the text. -/
lemma inOrder_exact (hfits : ∀ r ∈ parts, r.Fits s.length)
    (hapart : parts.Pairwise Replacement.Apart) :
    (∀ r ∈ Replacement.inOrder parts, r.Fits s.length) ∧
    ((Replacement.inOrder parts).Pairwise fun a b => a.stop ≤ b.start) ∧
    Replacement.lastFirst parts = (Replacement.inOrder parts).reverse := by
  have hperm : (Replacement.inOrder parts).Perm parts := List.mergeSort_perm parts _
  have hordered := Replacement.pairwise_inOrder (fun r hr => (hfits r hr).start_lt) hapart
  have hfits' : ∀ r ∈ Replacement.inOrder parts, r.Fits s.length :=
    fun r hr => hfits r (hperm.mem_iff.mp hr)
  refine ⟨hfits', hordered, Replacement.lastFirst_eq_reverse hperm ?_⟩
  exact hordered.imp_of_mem fun ha _ hab => Nat.lt_of_lt_of_le (hfits' _ ha).start_lt hab

/-- A splice of stretches that lie apart replaces all of them at once. -/
lemma splice_eq_replaceAll (hfits : ∀ r ∈ parts, r.Fits s.length)
    (hapart : parts.Pairwise Replacement.Apart) : splice parts s = replaceAll parts s := by
  obtain ⟨hfits', hordered, hlast⟩ := inOrder_exact hfits hapart
  have hmade := foldr_apply (Nat.zero_le _) hfits' (fun _ _ => Nat.zero_le _) hordered
  rw [List.take_zero, List.nil_append] at hmade
  rw [splice_eq_lastFirst, hlast, List.foldl_reverse, hmade, replaceAll]

/-- **A splice replaces all stretches at once**, where they lie apart. What it leaves are the
stretches between them and those that they keep, in the order of the text. When the turn of a
stretch comes, every place up to its end holds what it held at first: the replacement keeps what
it would keep of the text as it was, and takes over what stands behind it as a whole.

**Proof sketch.** By induction over the replacements in the order of the text: what the later ones
have made of it has the text up to the end of the next one as its beginning. -/
theorem splice_exact (hfits : ∀ r ∈ parts, r.Fits s.length)
    (hapart : parts.Pairwise Replacement.Apart) :
    splice parts s = replaceAll parts s ∧
    ∀ earlier r later, Replacement.lastFirst parts = earlier ++ r :: later →
      (earlier.foldl (fun t r => r.apply t) (List.range s.length)).take r.stop =
        List.range r.stop ∧
      (earlier.foldl (fun t r => r.apply t) s).take r.stop = s.take r.stop ∧
      r.apply (earlier.foldl (fun t r => r.apply t) s) =
        s.take r.start ++ r.kept s ++ (earlier.foldl (fun t r => r.apply t) s).drop r.stop := by
  refine ⟨splice_eq_replaceAll hfits hapart, fun earlier r later hsplit => ?_⟩
  obtain ⟨hfits, hordered, hlast⟩ := inOrder_exact hfits hapart
  have hparts : Replacement.inOrder parts = later.reverse ++ (r :: earlier.reverse) := by
    rw [← List.reverse_reverse (Replacement.inOrder parts), ← hlast, hsplit]
    simp
  rw [hparts] at hordered hfits
  obtain ⟨hr, hearlier⟩ := List.forall_mem_cons.mp (List.forall_mem_append.mp hfits).2
  obtain ⟨-, hordered, -⟩ := List.pairwise_append.mp hordered
  obtain ⟨hbehind, hordered⟩ := List.pairwise_cons.mp hordered
  have hmade : ∀ {β : Type} (t : List β), t.length = s.length →
      ∃ tail, earlier.foldl (fun t r => r.apply t) t = t.take r.stop ++ tail := by
    intro β t ht
    rw [← List.foldr_reverse, foldr_apply (by rw [ht]; exact hr.stop_le)
      (by rw [ht]; exact hearlier) hbehind hordered]
    exact ⟨_, rfl⟩
  obtain ⟨tail, htail⟩ := hmade s rfl
  obtain ⟨places, hplaces⟩ := hmade (List.range s.length) List.length_range
  have hlength : (s.take r.stop).length = r.stop := List.length_take_of_le hr.stop_le
  have hrange : (List.range s.length).take r.stop = List.range r.stop := by
    rw [List.take_range, Nat.min_eq_left hr.stop_le]
  refine ⟨?_, ?_, ?_⟩
  · rw [hplaces, hrange, List.take_left' List.length_range]
  · rw [htail, List.take_left' hlength]
  · rw [htail, Replacement.apply_take_append hr, List.drop_left' hlength]

end

/-- The assertions and type arguments in `é as T, y!, f<T>()`, counted in bytes and in no order. -/
def unorderedParts : List Replacement :=
  [⟨9, 11, some (9, 10)⟩, ⟨14, 17, none⟩, ⟨0, 7, some (0, 2)⟩]

/-- The bytes of a text are rid of three stretches at once, and the first splice leaves all bytes
in their places that the second one reads. -/
theorem splice_exact_bytes :
    (∀ r ∈ unorderedParts, r.Fits (Text.encode "é as T, y!, f<T>()").length) ∧
    unorderedParts.Pairwise Replacement.Apart ∧
    splice unorderedParts (Text.encode "é as T, y!, f<T>()") = Text.encode "é, y, f()" ∧
    (Replacement.apply ⟨14, 17, none⟩ (List.range 19)).take 11 = List.range 11 := by
  have hfits : ∀ r ∈ unorderedParts, r.Fits (Text.encode "é as T, y!, f<T>()").length := by
    decide
  have hapart : unorderedParts.Pairwise Replacement.Apart := by decide
  have hperm : List.Perm [⟨0, 7, some (0, 2)⟩, ⟨9, 11, some (9, 10)⟩, ⟨14, 17, none⟩]
      unorderedParts := by
    decide
  have horder : Replacement.lastFirst unorderedParts =
      [⟨14, 17, none⟩, ⟨9, 11, some (9, 10)⟩, ⟨0, 7, some (0, 2)⟩] :=
    Replacement.lastFirst_eq_reverse hperm (by decide)
  have hinOrder : Replacement.inOrder unorderedParts =
      [⟨0, 7, some (0, 2)⟩, ⟨9, 11, some (9, 10)⟩, ⟨14, 17, none⟩] := by
    rw [← List.reverse_reverse (Replacement.inOrder _), ← (inOrder_exact hfits hapart).2.2, horder]
    rfl
  obtain ⟨hsplice, hrounds⟩ := splice_exact hfits hapart
  refine ⟨hfits, hapart, ?_, (hrounds _ _ _ (horder.trans (List.singleton_append).symm)).1⟩
  rw [hsplice, replaceAll, hinOrder]
  decide

end ThemeOverride.Script
