import ThemeOverride.Proofs.Script.Walk

/-!
# Walks with a stack and by recursion

The walks through a tree keep a stack of the parts that are still to visit. The walk through all
parts visits them in the order in which a recursion over the tree meets them, each once. The search
for the outermost parts of some kinds goes through the parts of a tree from the last to the first.
It finds those that a recursion finds which stops at such a part, in the other order.

## Main results

* `ThemeOverride.Script.Tree.induction_parts`, `Placed.induction_parts` — induction over a tree and
  all its parts.
* `ThemeOverride.Script.Placed.walk_eq_preorder` — the walk through all parts.
* `ThemeOverride.Script.Placed.outermost_eq_reverse` — the search for outermost parts.

## Design

The stack stands for what is still to come of the recursion: its trees one after the other, each
with its parts. A step of either walk takes one tree off the stack and puts its parts in its
place, which leaves what is still to come as it is.
-/

namespace ThemeOverride.Script

/-- **Induction over trees.** What holds of every leaf, and of a node where it holds of its
parts, holds of every tree. -/
theorem Tree.induction_parts {motive : Tree → Prop}
    (leaf : ∀ f k gap text, motive (.leaf f k gap text))
    (node : ∀ f k cs, (∀ t ∈ cs, motive t) → motive (.node f k cs)) (t : Tree) : motive t :=
  match t with
  | .leaf f k gap text => leaf f k gap text
  | .node f k cs => node f k cs fun t _ => Tree.induction_parts leaf node t

namespace Tree

/-- The characters of a tree begin with the blanks before its first token. -/
lemma gap_isPrefix (t : Tree) : t.gap <+: t.chars := by
  induction t using induction_parts with
  | leaf f k gap text => exact List.prefix_append gap text
  | node f k cs ih =>
    cases cs with
    | nil => exact List.nil_prefix
    | cons c cs =>
      simp only [Tree.gap, gapAll, chars, charsAll_cons]
      exact (ih c List.mem_cons_self).trans (List.prefix_append _ _)

lemma gapAll_isPrefix (ts : List Tree) : gapAll ts <+: charsAll ts := by
  cases ts with
  | nil => exact List.nil_prefix
  | cons t ts =>
    rw [gapAll, charsAll_cons]
    exact t.gap_isPrefix.trans (List.prefix_append _ _)

/-- The text of a tree stands behind the blanks before it. -/
lemma gap_append_text (t : Tree) : t.gap ++ t.text = t.chars := by
  obtain ⟨rest, hrest⟩ := t.gap_isPrefix
  unfold text
  rw [← hrest, List.drop_left]

end Tree

namespace Placed

variable (weight : Char → Nat)

lemma tree_mem_of_mem_children {p child : Placed} (h : child ∈ p.children weight) :
    child.tree ∈ p.tree.children := by
  rw [← map_tree_children weight p]
  exact List.mem_map_of_mem h

/-- **Induction over trees at their places.** What holds of a tree where it holds of its parts
holds of every tree. -/
theorem induction_parts {motive : Placed → Prop}
    (parts : ∀ p : Placed, (∀ child ∈ p.children weight, motive child) → motive p) (p : Placed) :
    motive p := by
  obtain ⟨offset, t⟩ := p
  induction t using Tree.induction_parts generalizing offset with
  | leaf f k gap text => exact parts _ fun child hchild => absurd hchild List.not_mem_nil
  | node f k cs ih =>
    exact parts _ fun child hchild =>
      ih child.tree (tree_mem_of_mem_children weight hchild) child.offset

lemma preorder_eq (p : Placed) :
    preorder weight p = p :: (p.children weight).flatMap (preorder weight) := by
  have hrow : ∀ (offset : Nat) (trees : List Tree),
      preorderRow weight offset trees = (row weight offset trees).flatMap (preorder weight) := by
    intro offset trees
    induction trees generalizing offset with
    | nil => simp [preorderRow, row]
    | cons t ts ih => simp [preorderRow, row, preorder, ih]
  obtain ⟨offset, t⟩ := p
  cases t with
  | leaf f k gap text => simp [preorder, preorderAt, children, Tree.children, row]
  | node f k cs => simp [preorder, preorderAt, children, Tree.children, hrow]

/-- The recursion over a tree meets as many parts as the tree has. -/
lemma length_preorder (p : Placed) : (preorder weight p).length = p.tree.size := by
  have hrow : ∀ ps : List Placed, (∀ q ∈ ps, (preorder weight q).length = q.tree.size) →
      (ps.flatMap (preorder weight)).length = Tree.sizeAll (ps.map (·.tree)) := by
    intro ps
    induction ps with
    | nil => intro _; rfl
    | cons q ps ih =>
      intro h
      obtain ⟨hq, hps⟩ := List.forall_mem_cons.mp h
      rw [List.flatMap_cons, List.length_append, hq, ih hps, List.map_cons, Tree.sizeAll]
  induction p using induction_parts weight with
  | parts p ih =>
    rw [preorder_eq, List.length_cons, hrow _ ih, map_tree_children, Tree.size_eq]

/-- The walk through the trees on a stack has visited, after some rounds, the first so many parts
that the recursion over each of them meets. -/
lemma walkStack_eq (fuel : Nat) (stack : List Placed) :
    walkStack weight fuel stack = (stack.flatMap (preorder weight)).take fuel := by
  induction fuel generalizing stack with
  | zero => rw [walkStack, List.take_zero]
  | succ fuel ih =>
    cases stack with
    | nil => rfl
    | cons p rest =>
      rw [walkStack, ih, List.flatMap_append, List.flatMap_cons, preorder_eq, List.cons_append,
        List.take_succ_cons]

/-- **The walk through all parts** visits each once, a part before those to its right and after
those it lies in. -/
theorem walk_eq_preorder (p : Placed) : walk weight p = preorder weight p := by
  unfold walk
  rw [walkStack_eq, List.flatMap_singleton, ← length_preorder weight, List.take_length]

section

variable (kinds : Kind → Bool)

lemma outermostBelow_eq (p : Placed) :
    outermostBelow weight kinds p =
      if kinds p.tree.kind then [p]
      else (p.children weight).flatMap (outermostBelow weight kinds) := by
  have hrow : ∀ (offset : Nat) (trees : List Tree),
      outermostRow weight kinds offset trees =
        (row weight offset trees).flatMap (outermostBelow weight kinds) := by
    intro offset trees
    induction trees generalizing offset with
    | nil => simp [outermostRow, row]
    | cons t ts ih => simp [outermostRow, row, outermostBelow, ih]
  obtain ⟨offset, t⟩ := p
  cases t with
  | leaf f k gap text =>
    simp [outermostBelow, outermostAt, children, Tree.children, row, Tree.kind]
  | node f k cs =>
    rw [outermostBelow, outermostAt, hrow]
    rfl

/-- The search through the trees on a stack is the recursion over each of them, told from its end,
if there is enough fuel. -/
lemma outermostStack_eq {fuel : Nat} {stack : List Placed}
    (h : Tree.sizeAll (stack.map (·.tree)) ≤ fuel) :
    outermostStack weight kinds fuel stack =
      stack.flatMap fun p => (outermostBelow weight kinds p).reverse := by
  induction fuel generalizing stack with
  | zero =>
    cases stack with
    | nil => rfl
    | cons p rest =>
      rw [List.map_cons, Tree.sizeAll, Tree.size_eq] at h
      omega
  | succ fuel ih =>
    cases stack with
    | nil => rfl
    | cons p rest =>
      rw [List.map_cons, Tree.sizeAll, Tree.size_eq] at h
      rw [outermostStack, List.flatMap_cons, outermostBelow_eq]
      split
      · rw [ih (by omega), List.reverse_singleton, List.singleton_append]
      · have hrest : Tree.sizeAll (((p.children weight).reverse ++ rest).map (·.tree)) ≤ fuel := by
          rw [List.map_append, List.map_reverse, map_tree_children, Tree.sizeAll_append,
            Tree.sizeAll_reverse]
          omega
        rw [ih hrest, List.flatMap_append, List.reverse_flatMap]
        rfl

/-- **The search for outermost parts** of some kinds finds those that lie in no other part of
these kinds, the last of them first. -/
theorem outermost_eq_reverse (p : Placed) :
    outermost weight kinds p = (outermostBelow weight kinds p).reverse := by
  unfold outermost
  rw [outermostStack_eq weight kinds (by simp [Tree.sizeAll]), List.flatMap_singleton]

end

end Placed

end ThemeOverride.Script
