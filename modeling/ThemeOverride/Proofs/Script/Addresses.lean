import Mathlib.Data.List.Forall2
import ThemeOverride.Proofs.Export.Slices
import ThemeOverride.Proofs.Script.Remaining

/-!
# Parts of a tree by their addresses

A part of a tree is told apart from all others by its address, the numbers of the parts to descend
into, even where the same tree stands at the same place twice. Addresses in the order of a
dictionary are the parts in the order of a walk: what a part lies in comes before it, and so does
what stands to its left. Both walks with a stack are told by the addresses that they visit.

## Main definitions

* `ThemeOverride.Script.Placed.at?` — the part of a tree at an address.
* `ThemeOverride.Script.Placed.Lists` — the parts at some addresses, each once, in their order.
* `ThemeOverride.Script.Placed.IsOutermostAt` — an address of an outermost part of some kinds.

## Main results

* `ThemeOverride.Script.Placed.lists_preorder` — the recursion over a tree meets all parts of it.
* `ThemeOverride.Script.Placed.lists_outermostBelow` — that for outermost parts meets these.
* `ThemeOverride.Script.Placed.walks_exact` — what the walks with a stack visit and collect.

## Design

All is proved of the recursions over a tree, by induction on the tree, from one lemma on the parts
of trees in a row. The walks with a stack are equal to them.
-/

namespace ThemeOverride.Script.Placed

variable (weight : Char → Nat)

/-- The part of a tree at an address: the numbers of the parts to descend into, each among the
parts of the one before. -/
def at? (p : Placed) : List Nat → Option Placed
  | [] => some p
  | number :: rest => (p.children weight)[number]?.bind fun child => child.at? rest

/-- Some parts of a tree are those at certain addresses, each once, in the order of a dictionary of
addresses. -/
def Lists (p : Placed) (isListed : List Nat → Prop) (parts : List Placed) : Prop :=
  ∃ addresses : List (List Nat), addresses.Pairwise (· < ·) ∧
    (∀ address, address ∈ addresses ↔ isListed address) ∧
    List.Forall₂ (fun address part => p.at? weight address = some part) addresses parts

/-- At an address there is a part of some kinds, and it lies in no other part of these kinds. -/
def IsOutermostAt (kinds : Kind → Bool) (p : Placed) (address : List Nat) : Prop :=
  (∃ part, p.at? weight address = some part ∧ kinds part.tree.kind) ∧
  ∀ above, above <+: address → above ≠ address → ∀ part, p.at? weight above = some part →
    ¬ kinds part.tree.kind

/-! ## Addresses -/

variable {weight} {p q : Placed}

lemma at?_cons_eq_some_iff {number : Nat} {rest : List Nat} :
    p.at? weight (number :: rest) = some q ↔
      ∃ child, (p.children weight)[number]? = some child ∧ child.at? weight rest = some q :=
  Option.bind_eq_some_iff

lemma IsPart.refl (p : Placed) : p.IsPart weight p := ⟨[], [], by simp, by simp [weigh], by simp⟩

/-- What is found at an address is a part of the tree. -/
lemma isPart_of_at? {address : List Nat} (h : p.at? weight address = some q) :
    q.IsPart weight p ∧ Within q.tree p.tree := by
  induction address generalizing p with
  | nil =>
    obtain rfl : p = q := Option.some.inj h
    exact ⟨IsPart.refl p, .self _⟩
  | cons number rest ih =>
    obtain ⟨child, hchild, hq⟩ := at?_cons_eq_some_iff.mp h
    have hmem := List.mem_of_getElem? hchild
    obtain ⟨hpart, hwithin⟩ := ih hq
    exact ⟨hpart.trans (isPart_of_mem_children hmem), .inside (mem_row weight hmem).1 hwithin⟩

/-- Every part of a tree has an address. -/
lemma exists_at?_of_within {part : Tree} (h : Within part p.tree) :
    ∃ address q, p.at? weight address = some q ∧ q.tree = part := by
  generalize htree : p.tree = t at h
  induction h generalizing p with
  | self => exact ⟨[], p, rfl, htree⟩
  | inside hc _ ih =>
    rw [← htree, ← map_tree_children weight p] at hc
    obtain ⟨child, hchild, htree⟩ := List.mem_map.mp hc
    obtain ⟨address, q, hq, hpart⟩ := ih htree
    obtain ⟨number, hnumber⟩ := List.getElem?_of_mem hchild
    exact ⟨number :: address, q, at?_cons_eq_some_iff.mpr ⟨child, hnumber, hq⟩, hpart⟩

/-- The parts that are listed are those at the addresses. -/
lemma Lists.mem_iff {isListed : List Nat → Prop} {parts : List Placed}
    (h : p.Lists weight isListed parts) :
    q ∈ parts ↔ ∃ address, isListed address ∧ p.at? weight address = some q := by
  obtain ⟨addresses, -, hmem, hparts⟩ := h
  simp only [← hmem]
  clear hmem
  induction hparts with
  | nil => simp
  | @cons address part addresses parts hpart _ ih =>
    simp only [List.mem_cons, ih, exists_eq_or_imp, hpart, Option.some.injEq]
    rw [eq_comm]

/-! ## Parts of trees in a row -/

/-- **Trees in a row**: where the parts listed of each of them are those at certain addresses, the
parts listed one after the other are those at the addresses that begin with the number of a tree. -/
lemma exists_addresses_row {isListed : Placed → List Nat → Prop} {parts : Placed → List Placed}
    {row : List Placed} (hrow : ∀ child ∈ row, child.Lists weight (isListed child) (parts child))
    (first : Nat) : ∃ addresses : List (List Nat), addresses.Pairwise (· < ·) ∧
      (∀ address, address ∈ addresses ↔ ∃ number child rest, row[number]? = some child ∧
        isListed child rest ∧ address = (first + number) :: rest) ∧
      List.Forall₂ (fun address part => ∃ number child rest, row[number]? = some child ∧
          child.at? weight rest = some part ∧ address = (first + number) :: rest)
        addresses (row.flatMap parts) := by
  induction row generalizing first with
  | nil => exact ⟨[], .nil, by simp, .nil⟩
  | cons child row ih =>
    obtain ⟨hchild, hrow⟩ := List.forall_mem_cons.mp hrow
    obtain ⟨inner, hinnerOrder, hinner, hinnerParts⟩ := hchild
    obtain ⟨later, hlaterOrder, hlater, hlaterParts⟩ := ih hrow (first + 1)
    refine ⟨inner.map (first :: ·) ++ later, ?_, fun address => ?_, ?_⟩
    · refine List.pairwise_append.mpr ⟨?_, hlaterOrder, fun a ha b hb => ?_⟩
      · exact List.pairwise_map.mpr (hinnerOrder.imp fun hlt => List.cons_lt_cons_self.mpr hlt)
      · obtain ⟨rest, -, rfl⟩ := List.mem_map.mp ha
        obtain ⟨number, -, rest', -, -, rfl⟩ := (hlater b).mp hb
        exact List.Lex.rel (by omega)
    · rw [List.mem_append, List.mem_map, hlater]
      constructor
      · rintro (⟨rest, hrest, rfl⟩ | ⟨number, c, rest, hc, hrest, rfl⟩)
        · exact ⟨0, child, rest, rfl, (hinner rest).mp hrest, rfl⟩
        · exact ⟨number + 1, c, rest, hc, hrest, by rw [Nat.add_right_comm, Nat.add_assoc]⟩
      · rintro ⟨number, c, rest, hc, hrest, rfl⟩
        cases number with
        | zero =>
          obtain rfl : child = c := Option.some.inj hc
          exact Or.inl ⟨rest, (hinner rest).mpr hrest, rfl⟩
        | succ number =>
          exact Or.inr ⟨number, c, rest, hc, hrest, by rw [Nat.add_right_comm, Nat.add_assoc]⟩
    · rw [List.flatMap_cons]
      refine List.rel_append ?_ ?_
      · rw [List.forall₂_map_left_iff]
        exact hinnerParts.imp fun rest part hpart => ⟨0, child, rest, rfl, hpart, rfl⟩
      · refine hlaterParts.imp ?_
        rintro address part ⟨number, c, rest, hc, hpart, rfl⟩
        exact ⟨number + 1, c, rest, hc, hpart, by rw [Nat.add_right_comm, Nat.add_assoc]⟩

/-! ## What recursions over a tree meet -/

/-- **The recursion over a tree meets all parts of it**, each once. -/
theorem lists_preorder (p : Placed) :
    p.Lists weight (fun address => (p.at? weight address).isSome) (preorder weight p) := by
  induction p using induction_parts weight with
  | parts p ih =>
    obtain ⟨addresses, horder, hmem, hparts⟩ := exists_addresses_row ih 0
    simp only [Nat.zero_add] at hmem hparts
    refine ⟨[] :: addresses, ?_, fun address => ?_, ?_⟩
    · refine List.pairwise_cons.mpr ⟨fun address haddress => ?_, horder⟩
      obtain ⟨number, -, rest, -, -, rfl⟩ := (hmem address).mp haddress
      exact List.nil_lt_cons number rest
    · rw [List.mem_cons, hmem]
      cases address with
      | nil => simp [at?]
      | cons number rest =>
        simp only [reduceCtorEq, false_or, List.cons.injEq]
        constructor
        · rintro ⟨_, child, _, hchild, hrest, rfl, rfl⟩
          rwa [at?, hchild]
        · intro hsome
          obtain ⟨q, hq⟩ := Option.isSome_iff_exists.mp hsome
          obtain ⟨child, hchild, hrest⟩ := at?_cons_eq_some_iff.mp hq
          exact ⟨number, child, rest, hchild, Option.isSome_iff_exists.mpr ⟨q, hrest⟩, rfl, rfl⟩
    · rw [preorder_eq]
      refine .cons rfl (hparts.imp ?_)
      rintro address part ⟨number, child, rest, hchild, hpart, rfl⟩
      exact at?_cons_eq_some_iff.mpr ⟨child, hchild, hpart⟩

section

variable {kinds : Kind → Bool}

/-- A tree of the kinds looked for is its only outermost part. -/
lemma isOutermostAt_of_kind (hkind : kinds p.tree.kind) {address : List Nat} :
    p.IsOutermostAt weight kinds address ↔ address = [] := by
  constructor
  · intro h
    by_contra hne
    exact h.2 [] List.nil_prefix (Ne.symm hne) p rfl hkind
  · rintro rfl
    exact ⟨⟨p, rfl, hkind⟩, fun above habove hne => absurd (List.prefix_nil.mp habove) hne⟩

/-- The outermost parts of another tree are those of its parts. -/
lemma isOutermostAt_of_not_kind (hkind : ¬ kinds p.tree.kind) {address : List Nat} :
    p.IsOutermostAt weight kinds address ↔ ∃ number child rest,
      (p.children weight)[number]? = some child ∧ child.IsOutermostAt weight kinds rest ∧
        address = number :: rest := by
  constructor
  · rintro ⟨⟨part, hpart, hpartKind⟩, habove⟩
    cases address with
    | nil =>
      obtain rfl : p = part := Option.some.inj hpart
      exact absurd hpartKind hkind
    | cons number rest =>
      obtain ⟨child, hchild, hrest⟩ := at?_cons_eq_some_iff.mp hpart
      refine ⟨number, child, rest, hchild, ⟨⟨part, hrest, hpartKind⟩, ?_⟩, rfl⟩
      intro above hprefix hne q hq
      exact habove (number :: above) (List.cons_prefix_cons.mpr ⟨rfl, hprefix⟩)
        (fun heq => hne (List.cons.inj heq).2) q (at?_cons_eq_some_iff.mpr ⟨child, hchild, hq⟩)
  · rintro ⟨number, child, rest, hchild, ⟨⟨part, hpart, hpartKind⟩, habove⟩, rfl⟩
    refine ⟨⟨part, at?_cons_eq_some_iff.mpr ⟨child, hchild, hpart⟩, hpartKind⟩, ?_⟩
    intro above hprefix hne q hq
    cases above with
    | nil =>
      obtain rfl : p = q := Option.some.inj hq
      exact hkind
    | cons number' above =>
      obtain ⟨rfl, hbelow⟩ := List.cons_prefix_cons.mp hprefix
      obtain ⟨child', hchild', hq⟩ := at?_cons_eq_some_iff.mp hq
      obtain rfl : child = child' := Option.some.inj (hchild.symm.trans hchild')
      exact habove above hbelow (fun heq => hne (congrArg _ heq)) q hq

/-- **The recursion for outermost parts meets these**, each once. -/
theorem lists_outermostBelow (p : Placed) :
    p.Lists weight (p.IsOutermostAt weight kinds) (outermostBelow weight kinds p) := by
  induction p using induction_parts weight with
  | parts p ih =>
    rw [outermostBelow_eq]
    split
    · rename_i hkind
      refine ⟨[[]], List.pairwise_singleton _ _, fun address => ?_, .cons rfl .nil⟩
      rw [isOutermostAt_of_kind hkind, List.mem_singleton]
    · rename_i hkind
      obtain ⟨addresses, horder, hmem, hparts⟩ := exists_addresses_row ih 0
      simp only [Nat.zero_add] at hmem hparts
      refine ⟨addresses, horder, fun address => ?_, hparts.imp ?_⟩
      · rw [hmem, isOutermostAt_of_not_kind hkind]
      · rintro address part ⟨number, child, rest, hchild, hpart, rfl⟩
        exact at?_cons_eq_some_iff.mpr ⟨child, hchild, hpart⟩

/-- **A part of the kinds looked for** is an outermost one or lies in one. -/
lemma exists_isOutermostAt {address : List Nat} (h : p.at? weight address = some q)
    (hkind : kinds q.tree.kind) : ∃ above o, above <+: address ∧
      p.IsOutermostAt weight kinds above ∧ p.at? weight above = some o ∧ q.IsPart weight o := by
  induction address generalizing p with
  | nil =>
    obtain rfl : p = q := Option.some.inj h
    exact ⟨[], p, List.nil_prefix, (isOutermostAt_of_kind hkind).mpr rfl, rfl, IsPart.refl p⟩
  | cons number rest ih =>
    by_cases hroot : kinds p.tree.kind
    · exact ⟨[], p, List.nil_prefix, (isOutermostAt_of_kind hroot).mpr rfl, rfl,
        (isPart_of_at? h).1⟩
    · obtain ⟨child, hchild, hq⟩ := at?_cons_eq_some_iff.mp h
      obtain ⟨above, o, hprefix, houtermost, ho, hpart⟩ := ih hq
      exact ⟨number :: above, o, List.cons_prefix_cons.mpr ⟨rfl, hprefix⟩,
        (isOutermostAt_of_not_kind hroot).mpr ⟨number, child, above, hchild, houtermost, rfl⟩,
        at?_cons_eq_some_iff.mpr ⟨child, hchild, ho⟩, hpart⟩

end

/-! ## What walks with a stack visit -/

/-- The names that a tree refers to, each once, are the texts of the references at its
addresses. -/
lemma mem_references_iff_at? {name : String} : name ∈ references p.tree ↔
    ∃ address q, p.at? weight address = some q ∧ q.tree.kind.isReference ∧
      q.tree.toText = name := by
  rw [mem_references_iff]
  constructor
  · rintro ⟨part, hwithin, hkind, htext⟩
    obtain ⟨address, q, hq, rfl⟩ := exists_at?_of_within hwithin
    exact ⟨address, q, hq, hkind, htext⟩
  · rintro ⟨address, q, hq, hkind, htext⟩
    exact ⟨q.tree, (isPart_of_at? hq).2, hkind, htext⟩

/-- A part within a tree begins and ends in it. -/
lemma IsPart.within (h : q.IsPart weight p) :
    p.start weight ≤ q.start weight ∧ q.stop weight ≤ p.stop weight := by
  obtain ⟨before, after, -, hstart, hstop⟩ := h.exists_text
  omega

/-- **Walks with a stack are recursions over the tree.** However many rounds it has made, the walk
through all parts has visited the first so many of those that the recursion meets; after as many
rounds as the tree has parts it has visited every address once, in the order of a dictionary, and
the names referred to are the texts of the references among these parts. The search for outermost
parts has by then collected exactly the addresses whose part is of the kinds looked for and in no
other such part, each once and the last first. The stretches that they cover lie apart, and every
part of these kinds is one of them or lies, with the stretch that it covers, in one. All of this is
so for every weight of characters, bytes (`byteWeight`) among them. -/
theorem walks_exact (weight : Char → Nat) (kinds : Kind → Bool) (p : Placed) :
    (∀ rounds, walkStack weight rounds [p] = (preorder weight p).take rounds) ∧
    walk weight p = preorder weight p ∧
    p.Lists weight (fun address => (p.at? weight address).isSome) (walk weight p) ∧
    (∀ name, name ∈ references p.tree ↔ ∃ address q, p.at? weight address = some q ∧
      q.tree.kind.isReference ∧ q.tree.toText = name) ∧
    (∀ rounds, p.tree.size ≤ rounds →
      outermostStack weight kinds rounds [p] = outermost weight kinds p) ∧
    outermost weight kinds p = (outermostBelow weight kinds p).reverse ∧
    p.Lists weight (p.IsOutermostAt weight kinds) (outermost weight kinds p).reverse ∧
    ((outermost weight kinds p).Pairwise fun a b => b.stop weight ≤ a.start weight) ∧
    ∀ address q, p.at? weight address = some q → kinds q.tree.kind →
      ∃ above o, above <+: address ∧ p.IsOutermostAt weight kinds above ∧
        p.at? weight above = some o ∧ o ∈ outermost weight kinds p ∧
        o.start weight ≤ q.start weight ∧ q.stop weight ≤ o.stop weight := by
  have houtermost := outermost_eq_reverse weight kinds p
  refine ⟨fun rounds => ?_, walk_eq_preorder weight p, ?_, fun name => mem_references_iff_at?,
    fun rounds hrounds => ?_, houtermost, ?_, ?_, fun address q hq hkind => ?_⟩
  · rw [walkStack_eq, List.flatMap_singleton]
  · rw [walk_eq_preorder]
    exact lists_preorder p
  · rw [outermostStack_eq weight kinds (by simpa [Tree.sizeAll] using hrounds), houtermost,
      List.flatMap_singleton]
  · rw [houtermost, List.reverse_reverse]
    exact lists_outermostBelow p
  · rw [houtermost, List.pairwise_reverse]
    exact (pairwise_outermostBelow weight kinds p).imp fun hab =>
      Nat.le_trans hab (Nat.le_add_right _ _)
  · obtain ⟨above, o, hprefix, hoAt, ho, hpart⟩ := exists_isOutermostAt hq hkind
    refine ⟨above, o, hprefix, hoAt, ho, ?_, hpart.within⟩
    rw [houtermost, List.mem_reverse]
    exact (lists_outermostBelow p).mem_iff.mpr ⟨above, hoAt, ho⟩

end ThemeOverride.Script.Placed
