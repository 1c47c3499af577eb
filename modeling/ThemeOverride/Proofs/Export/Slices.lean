import ThemeOverride.Export.Analysis
import ThemeOverride.Proofs.Script.Stripping
import ThemeOverride.Proofs.Script.Whole

/-!
# Slices of a text

Records hold places counted in bytes. The slice of a text between the places of a part of its tree
is the text of that part; a slice of a part can be put together from the slices around a part
in it.

## Main definitions

* `ThemeOverride.Script.Placed.IsPart` — a tree at its place within another.
* `ThemeOverride.Script.Placed.IsIn` — a tree at its place within a text.

## Main results

* `ThemeOverride.byteSlice_append` — a slice of a text that is told by what comes before it.
* `ThemeOverride.Script.Placed.IsPart.exists_text` — the places of a part within a tree.
* `ThemeOverride.byteSlice_span` — the slice that a part of a tree covers is the text of it.
* `ThemeOverride.exists_slices` — the slices before and after a part within another.
-/

namespace ThemeOverride

open Script

/-! ## Slices by weight -/

lemma byteWeight_pos (c : Char) : 0 < byteWeight c := Char.utf8Size_pos c

/-- A text is split behind some characters by their weight. -/
lemma within_append (s t : List Char) :
    byteSlice.within (s ++ t) (weigh byteWeight s) = (s, t) := by
  induction s with
  | nil =>
    cases t with
    | nil => rfl
    | cons c t =>
      rw [List.nil_append, byteSlice.within]
      exact if_pos (byteWeight_pos c)
  | cons c s ih =>
    have hweight : weigh byteWeight (c :: s) = byteWeight c + weigh byteWeight s := rfl
    rw [List.cons_append, byteSlice.within, hweight, if_neg (by omega), Nat.add_sub_cancel_left, ih]

/-- A slice that is told by what comes before it. -/
lemma byteSlice_append (before mid after : List Char) :
    byteSlice (before ++ (mid ++ after)) (weigh byteWeight before)
      (weigh byteWeight before + weigh byteWeight mid) = mid := by
  unfold byteSlice
  rw [← weigh_append, ← List.append_assoc, within_append]
  dsimp only
  rw [within_append]

namespace Script.Placed

variable {weight : Char → Nat} {p q u : Placed} {s : List Char}

/-- A tree at its place within another: after some characters of it. What comes before its first
token holds the blanks before the other tree. -/
def IsPart (weight : Char → Nat) (q p : Placed) : Prop :=
  ∃ before after, p.tree.chars = before ++ (q.tree.chars ++ after) ∧
    q.offset = p.offset + weigh weight before ∧
      p.tree.gap.length ≤ before.length + q.tree.gap.length

/-- A tree at its place within a text. -/
def IsIn (weight : Char → Nat) (p : Placed) (s : List Char) : Prop :=
  ∃ before after, s = before ++ (p.tree.chars ++ after) ∧ p.offset = weigh weight before

lemma isPart_of_mem_row {offset : Nat} {ts : List Tree} (h : q ∈ row weight offset ts) :
    ∃ before after, Tree.charsAll ts = before ++ (q.tree.chars ++ after) ∧
      q.offset = offset + weigh weight before ∧
        (Tree.gapAll ts).length ≤ before.length + q.tree.gap.length := by
  induction ts generalizing offset with
  | nil => cases h
  | cons t ts ih =>
    rcases List.mem_cons.mp h with rfl | h
    · exact ⟨[], Tree.charsAll ts, by simp, by simp [weigh], by simp [Tree.gapAll]⟩
    · obtain ⟨before, after, hchars, hoffset, -⟩ := ih h
      refine ⟨t.chars ++ before, after, by simp [hchars], ?_, ?_⟩
      · rw [weigh_append, hoffset]
        omega
      · have hgap := t.gap_isPrefix.length_le
        rw [Tree.gapAll, List.length_append]
        omega

/-- The parts of a tree stand at their places in it. -/
lemma isPart_of_mem_children (h : q ∈ p.children weight) : q.IsPart weight p := by
  obtain ⟨offset, t⟩ := p
  cases t with
  | leaf => cases h
  | node f k cs =>
    unfold IsPart
    simp only [Tree.chars, Tree.gap]
    exact isPart_of_mem_row h

lemma isPart_of_mem_namedChildren (h : q ∈ p.namedChildren weight) : q.IsPart weight p :=
  isPart_of_mem_children (List.mem_filter.mp h).1

lemma isPart_of_child? {f : Field} (h : p.child? weight f = some q) : q.IsPart weight p :=
  isPart_of_mem_children (List.mem_of_find?_eq_some h)

lemma IsPart.trans (hu : u.IsPart weight q) (hq : q.IsPart weight p) : u.IsPart weight p := by
  obtain ⟨before, after, hchars, hoffset, hgap⟩ := hq
  obtain ⟨before', after', hchars', hoffset', hgap'⟩ := hu
  refine ⟨before ++ before', after' ++ after, ?_, ?_, ?_⟩
  · rw [hchars, hchars']
    simp only [List.append_assoc]
  · rw [weigh_append, hoffset', hoffset]
    omega
  · rw [List.length_append]
    omega

lemma start_eq (p : Placed) : p.start weight = p.offset + weigh weight p.tree.gap := rfl

lemma stop_eq (p : Placed) : p.stop weight = p.start weight + weigh weight p.tree.text := by
  rw [start_eq, stop, ← Tree.gap_append_text p.tree, weigh_append, Nat.add_assoc]

lemma start_le_stop (p : Placed) : p.start weight ≤ p.stop weight := by
  rw [stop_eq]
  omega

/-- **A part within a tree**: the text of the tree with the text of the part in it, and the places
where both begin and end. -/
theorem IsPart.exists_text (h : q.IsPart weight p) : ∃ before after,
    p.tree.text = before ++ (q.tree.text ++ after) ∧
      q.start weight = p.start weight + weigh weight before ∧
      p.stop weight = q.stop weight + weigh weight after := by
  obtain ⟨inner, after, hchars, hoffset, hgap⟩ := h
  have htext : p.tree.gap ++ p.tree.text = (inner ++ q.tree.gap) ++ (q.tree.text ++ after) := by
    rw [Tree.gap_append_text, hchars, ← Tree.gap_append_text q.tree]
    simp only [List.append_assoc]
  -- the blanks before the tree are among what comes before the first token of the part
  obtain ⟨before, hbefore⟩ : p.tree.gap <+: inner ++ q.tree.gap := by
    refine List.prefix_of_prefix_length_le (List.prefix_append _ p.tree.text) ?_
      (by rwa [List.length_append])
    rw [htext]
    exact List.prefix_append _ _
  have hp : p.tree.text = before ++ (q.tree.text ++ after) := by
    rw [← hbefore, List.append_assoc] at htext
    exact List.append_cancel_left htext
  have hstart : q.start weight = p.start weight + weigh weight before := by
    have hweight := congrArg (weigh weight) hbefore
    rw [weigh_append, weigh_append] at hweight
    rw [start_eq, start_eq, hoffset]
    omega
  refine ⟨before, after, hp, hstart, ?_⟩
  rw [stop_eq, stop_eq, hstart, hp, weigh_append, weigh_append]
  omega

/-- What stands in a text has its parts in it. -/
lemma IsPart.isIn (hq : q.IsPart weight p) (hp : p.IsIn weight s) : q.IsIn weight s := by
  obtain ⟨before, after, hchars, hoffset, -⟩ := hq
  obtain ⟨start, stop, rfl, hstart⟩ := hp
  refine ⟨start ++ before, after ++ stop, ?_, ?_⟩
  · rw [hchars]
    simp only [List.append_assoc]
  · rw [weigh_append, hoffset, hstart]

/-- What stands in a text ends in it. -/
lemma IsIn.stop_le (h : p.IsIn weight s) : p.stop weight ≤ weigh weight s := by
  obtain ⟨before, after, rfl, hoffset⟩ := h
  rw [stop, hoffset, weigh_append, weigh_append]
  omega

/-- The tree of a text stands at its start. -/
lemma isIn_parse (dialect : Dialect) (s : List Char) :
    (Placed.mk 0 (parse dialect s)).IsIn weight s := by
  obtain ⟨rest, hrest⟩ := chars_parse_prefix dialect s
  exact ⟨[], rest, hrest.symm, rfl⟩

end Script.Placed

section

variable {p q : Placed} {s : List Char}

/-- **The slice that a part of a tree covers** is the text of it. -/
theorem byteSlice_span (hp : p.IsIn byteWeight s) :
    byteSlice s (p.start byteWeight) (p.stop byteWeight) = p.tree.text := by
  obtain ⟨before, after, rfl, hoffset⟩ := hp
  have hstart : p.start byteWeight = weigh byteWeight (before ++ p.tree.gap) := by
    rw [Placed.start_eq, hoffset, weigh_append]
  have hslice := byteSlice_append (before ++ p.tree.gap) p.tree.text after
  rw [← hstart, ← Placed.stop_eq] at hslice
  rw [← Tree.gap_append_text p.tree]
  simpa only [List.append_assoc] using hslice

/-- **The slices around a part** of a tree make up the text of the tree with the text of the
part. -/
theorem exists_slices (hp : p.IsIn byteWeight s) (hq : q.IsPart byteWeight p) :
    ∃ before after, p.tree.text = before ++ (q.tree.text ++ after) ∧
      byteSlice s (p.start byteWeight) (q.start byteWeight) = before ∧
      byteSlice s (q.stop byteWeight) (p.stop byteWeight) = after := by
  obtain ⟨before, rest, htext, hqstart, hpstop⟩ := hq.exists_text
  obtain ⟨left, right, rfl, hoffset⟩ := hp
  have hpstart : p.start byteWeight = weigh byteWeight (left ++ p.tree.gap) := by
    rw [Placed.start_eq, hoffset, weigh_append]
  have hqstop :
      q.stop byteWeight = weigh byteWeight (left ++ p.tree.gap ++ before ++ q.tree.text) := by
    rw [Placed.stop_eq, hqstart, hpstart]
    simp only [weigh_append, Nat.add_assoc]
  refine ⟨before, rest, htext, ?_, ?_⟩
  · have hslice := byteSlice_append (left ++ p.tree.gap) before (q.tree.text ++ rest ++ right)
    rw [← hpstart, ← hqstart] at hslice
    rw [← Tree.gap_append_text p.tree, htext]
    simpa only [List.append_assoc] using hslice
  · have hslice := byteSlice_append (left ++ p.tree.gap ++ before ++ q.tree.text) rest right
    rw [← hqstop, ← hpstop] at hslice
    rw [← Tree.gap_append_text p.tree, htext]
    simpa only [List.append_assoc] using hslice

end

end ThemeOverride
