import Mathlib.Tactic.Lemma
import ThemeOverride.Script.Walk

/-!
# What a walk visits

A walk through a tree visits the parts of the tree and nothing else, so that the names a tree
refers to are those of its parts.

## Main definitions

* `ThemeOverride.Script.Within` — a tree is a part of another, however deep.

## Main results

* `ThemeOverride.Script.Placed.exists_mem_walk_iff` — a walk visits exactly the parts of a tree.
* `ThemeOverride.Script.mem_references_iff` — the names that a tree refers to.
-/

namespace ThemeOverride.Script

/-- A tree is a part of another: it is this tree, or a part of one of its parts. -/
inductive Within : Tree → Tree → Prop where
  | self (t : Tree) : Within t t
  | inside {part child t : Tree} (hc : child ∈ t.children) (h : Within part child) : Within part t

lemma within_iff {part t : Tree} :
    Within part t ↔ part = t ∨ ∃ child ∈ t.children, Within part child := by
  constructor
  · intro h
    cases h with
    | self => exact Or.inl rfl
    | inside hc h => exact Or.inr ⟨_, hc, h⟩
  · rintro (rfl | ⟨child, hc, h⟩)
    · exact Within.self part
    · exact Within.inside hc h

namespace Tree

lemma size_eq (t : Tree) : t.size = sizeAll t.children + 1 := by
  cases t with
  | leaf f k g s => simp [size, sizeAll, children]
  | node f k cs => simp [size, children]

lemma sizeAll_append (xs ys : List Tree) : sizeAll (xs ++ ys) = sizeAll xs + sizeAll ys := by
  induction xs with
  | nil => simp [sizeAll]
  | cons x xs ih =>
    rw [List.cons_append, sizeAll, sizeAll, ih]
    omega

lemma sizeAll_reverse (ts : List Tree) : sizeAll ts.reverse = sizeAll ts := by
  induction ts with
  | nil => rfl
  | cons t ts ih =>
    rw [List.reverse_cons, sizeAll_append, ih, sizeAll, sizeAll, sizeAll]
    omega

end Tree

namespace Placed

variable (weight : Char → Nat)

@[simp] lemma map_tree_row (offset : Nat) (trees : List Tree) :
    (row weight offset trees).map (·.tree) = trees := by
  induction trees generalizing offset with
  | nil => rfl
  | cons t ts ih => rw [row, List.map_cons, ih]

@[simp] lemma map_tree_children (p : Placed) :
    (p.children weight).map (·.tree) = p.tree.children := map_tree_row weight _ _

/-- A walk through the trees on a stack visits their parts, if there is enough fuel. -/
lemma exists_mem_walkStack_iff {fuel : Nat} {stack : List Placed} {part : Tree}
    (h : Tree.sizeAll (stack.map (·.tree)) ≤ fuel) :
    (∃ p ∈ walkStack weight fuel stack, p.tree = part) ↔
      ∃ t ∈ stack.map (·.tree), Within part t := by
  induction fuel generalizing stack with
  | zero =>
    cases stack with
    | nil => simp [walkStack]
    | cons p rest =>
      rw [List.map_cons, Tree.sizeAll, Tree.size_eq] at h
      omega
  | succ fuel ih =>
    cases stack with
    | nil => simp [walkStack]
    | cons p rest =>
      have hrest : Tree.sizeAll ((p.children weight ++ rest).map (·.tree)) ≤ fuel := by
        rw [List.map_cons, Tree.sizeAll, Tree.size_eq] at h
        rw [List.map_append, map_tree_children, Tree.sizeAll_append]
        omega
      have hwithin : (∃ t ∈ (p :: rest).map (·.tree), Within part t) ↔
          p.tree = part ∨ ∃ t ∈ (p.children weight ++ rest).map (·.tree), Within part t := by
        rw [List.map_append, map_tree_children, List.map_cons]
        simp only [List.mem_cons, List.mem_append, or_and_right, exists_or, exists_eq_left]
        rw [within_iff, eq_comm, or_assoc]
      rw [hwithin, ← ih hrest, walkStack]
      simp only [List.mem_cons, exists_eq_or_imp]

/-- **A walk visits exactly the parts of a tree.** -/
theorem exists_mem_walk_iff {p : Placed} {part : Tree} :
    (∃ q ∈ walk weight p, q.tree = part) ↔ Within part p.tree := by
  unfold walk
  rw [exists_mem_walkStack_iff weight (by simp [Tree.sizeAll])]
  simp

end Placed

/-- **The names that a tree refers to** are the texts of those of its parts that are references. -/
theorem mem_references_iff {t : Tree} {name : String} :
    name ∈ references t ↔ ∃ part, Within part t ∧ part.kind.isReference ∧ part.toText = name := by
  unfold references
  simp only [List.mem_eraseDups, List.mem_mergeSort, List.mem_map, List.mem_filter]
  constructor
  · rintro ⟨p, ⟨hp, hkind⟩, rfl⟩
    exact ⟨p.tree, (Placed.exists_mem_walk_iff _).mp ⟨p, hp, rfl⟩, hkind, rfl⟩
  · rintro ⟨part, hwithin, hkind, rfl⟩
    obtain ⟨p, hp, rfl⟩ := (Placed.exists_mem_walk_iff (p := ⟨0, t⟩) fun _ => 0).mpr hwithin
    exact ⟨p, ⟨hp, hkind⟩, rfl⟩

end ThemeOverride.Script
