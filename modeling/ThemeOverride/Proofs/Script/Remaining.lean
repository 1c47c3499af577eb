import ThemeOverride.Proofs.Export.Statements
import ThemeOverride.Proofs.Script.Errors
import ThemeOverride.Proofs.Script.Splicing

/-!
# What passes leave of a script

A pass that rids a text of assertions of types works on the text: it cuts stretches out of it, the
last first. Here it is told what this does to the tree of the text. The tokens that are left are
written one after the other, with the blanks that stood before them. They are not always read as
the tokens they were: without the brackets between them a keyword and a name become one name.

## Main definitions

* `ThemeOverride.Script.Tree.tokens` — the tokens of a tree, with what they are.
* `ThemeOverride.Script.Tree.remaining`, `charsLeft` — the tokens that a pass leaves of a tree, and
  the text in which they are written.
* `ThemeOverride.Script.StaysRead` — what each pass leaves is read as the tokens that it left.

## Main results

* `ThemeOverride.Script.splice_typeOnlyParts` — a pass makes all its replacements at once.
* `ThemeOverride.Script.splice_eq_charsLeft` — a pass leaves the text of the tokens it leaves.
* `ThemeOverride.Script.references_stripAssertions` — a script stays free of errors, and refers to
  nothing new, where each pass leaves what is read as before.

## Design

Nodes count as tokens too where they are errors or refer to something, so that the tokens of a tree
tell whether it has errors and what it refers to.
-/

namespace ThemeOverride.Script

open ThemeOverride.Script.Tree

/-- Whether nodes of this kind are told apart like tokens. -/
def Kind.isTold (k : Kind) : Bool := k == .error || k.isReference

namespace Tree

mutual

/-- The tokens of a tree, with what they are. -/
def tokens : Tree → List (Kind × List Char)
  | leaf _ k _ s => [(k, s)]
  | node f k cs => (if k.isTold then [(k, (node f k cs).text)] else []) ++ tokensAll cs

/-- The tokens of some trees in a row. -/
def tokensAll : List Tree → List (Kind × List Char)
  | [] => []
  | t :: ts => t.tokens ++ tokensAll ts

end

/-- What stays of a tree that asserts a type or gives type arguments. -/
def kept? (t : Tree) : Option Tree :=
  if t.kind == .typeArguments then none else asserted? t.kind t.namedChildren

mutual

/-- The tokens that a pass leaves of a tree. -/
def remaining : Tree → List (Kind × List Char)
  | leaf _ k _ s => if k.isTypeOnly then [] else [(k, s)]
  | node f k cs =>
    if k.isTypeOnly then ((node f k cs).kept?.map tokens).getD []
    else (if k.isTold then [(k, (node f k cs).text)] else []) ++ remainingAll cs

/-- The tokens that a pass leaves of some trees in a row. -/
def remainingAll : List Tree → List (Kind × List Char)
  | [] => []
  | t :: ts => t.remaining ++ remainingAll ts

end

mutual

/-- The text that a pass leaves of a tree: that of the tokens left, and all blanks but those within
what is cut out. -/
def charsLeft : Tree → List Char
  | leaf _ k gap s => if k.isTypeOnly then gap else gap ++ s
  | node f k cs =>
    if k.isTypeOnly then (node f k cs).gap ++ ((node f k cs).kept?.map text).getD []
    else charsLeftAll cs

/-- The text that a pass leaves of some trees in a row. -/
def charsLeftAll : List Tree → List Char
  | [] => []
  | t :: ts => t.charsLeft ++ charsLeftAll ts

end

/-! ## Tokens and references -/

lemma tokensAll_append (xs ys : List Tree) : tokensAll (xs ++ ys) = tokensAll xs ++ tokensAll ys := by
  induction xs with
  | nil => simp [tokensAll]
  | cons x xs ih => simp [tokensAll, ih]

lemma tokens_sublist_tokensAll {t : Tree} {ts : List Tree} (h : t ∈ ts) :
    t.tokens.Sublist (tokensAll ts) := by
  obtain ⟨before, after, rfl⟩ := List.append_of_mem h
  rw [tokensAll_append, tokensAll]
  exact (List.sublist_append_left _ _).trans (List.sublist_append_right _ _)

lemma mem_tokensAll {ts : List Tree} {x : Kind × List Char} :
    x ∈ tokensAll ts ↔ ∃ t ∈ ts, x ∈ t.tokens := by
  induction ts with
  | nil => simp [tokensAll]
  | cons t ts ih => simp [tokensAll, ih]

/-- What is told apart in a tree are parts of it. -/
lemma mem_tokens_iff {t : Tree} {k : Kind} {s : List Char} (hk : k.isTold) :
    (k, s) ∈ t.tokens ↔ ∃ part, Within part t ∧ part.kind = k ∧ part.text = s := by
  induction t using Tree.induction_parts with
  | leaf f k' gap s' =>
    have htext : (leaf f k' gap s').text = s' := by
      simp [text, chars, Tree.gap]
    rw [tokens, List.mem_singleton, Prod.mk.injEq]
    constructor
    · rintro ⟨rfl, rfl⟩
      exact ⟨_, .self _, rfl, htext⟩
    · rintro ⟨part, hpart, rfl, rfl⟩
      rcases within_iff.mp hpart with rfl | ⟨c, hc, -⟩
      · exact ⟨rfl, htext⟩
      · cases hc
  | node f k' cs ih =>
    rw [tokens, List.mem_append, mem_tokensAll]
    constructor
    · rintro (h | ⟨t, ht, h⟩)
      · split at h
        · obtain ⟨rfl, rfl⟩ := Prod.mk.inj (List.mem_singleton.mp h)
          exact ⟨_, .self _, rfl, rfl⟩
        · cases h
      · obtain ⟨part, hpart, hkind, htext⟩ := (ih t ht).mp h
        exact ⟨part, .inside ht hpart, hkind, htext⟩
    · rintro ⟨part, hpart, rfl, rfl⟩
      rcases within_iff.mp hpart with rfl | ⟨c, hc, hpart⟩
      · left
        have hk' : k'.isTold := hk
        rw [if_pos hk']
        exact List.mem_singleton_self _
      · exact Or.inr ⟨c, hc, (ih c hc).mpr ⟨part, hpart, rfl, rfl⟩⟩

lemma mem_references_iff_tokens {t : Tree} {name : String} :
    name ∈ references t ↔ ∃ k, k.isReference ∧ (k, name.toList) ∈ t.tokens := by
  rw [mem_references_iff]
  constructor
  · rintro ⟨part, hpart, hkind, rfl⟩
    refine ⟨part.kind, hkind, (mem_tokens_iff (by simp [Kind.isTold, hkind])).mpr ?_⟩
    exact ⟨part, hpart, rfl, by simp [toText]⟩
  · rintro ⟨k, hkind, hmem⟩
    obtain ⟨part, hpart, rfl, htext⟩ := (mem_tokens_iff (by simp [Kind.isTold, hkind])).mp hmem
    exact ⟨part, hpart, hkind, by simp [toText, htext]⟩

/-- A tree has an error where one of its tokens is an error. -/
lemma hasError_eq_false_iff_tokens {t : Tree} :
    t.hasError = false ↔ ∀ x ∈ t.tokens, x.1 ≠ .error := by
  rw [hasError_eq_false_iff]
  constructor
  · rintro h ⟨k, s⟩ hmem rfl
    obtain ⟨part, hpart, hkind, -⟩ := (mem_tokens_iff rfl).mp hmem
    have hsound := h part hpart
    rw [hkind] at hsound
    cases hsound
  · intro h part hpart
    refine bne_iff_ne.mpr fun hkind => ?_
    exact h (.error, part.text) ((mem_tokens_iff rfl).mpr ⟨part, hpart, hkind, rfl⟩) rfl

/-- The tokens that a pass leaves are tokens of the tree, in their order. -/
lemma remaining_sublist (t : Tree) : t.remaining.Sublist t.tokens := by
  induction t using Tree.induction_parts with
  | leaf f k gap s =>
    rw [remaining, tokens]
    split
    · exact List.nil_sublist _
    · exact List.Sublist.refl _
  | node f k cs ih =>
    have hall : ∀ ts : List Tree, (∀ t ∈ ts, t ∈ cs) → (remainingAll ts).Sublist (tokensAll ts) := by
      intro ts
      induction ts with
      | nil => intro _; simp [remainingAll]
      | cons t ts ihts =>
        intro hts
        obtain ⟨ht, hts⟩ := List.forall_mem_cons.mp hts
        rw [remainingAll, tokensAll]
        exact (ih t ht).append (ihts hts)
    rw [remaining, tokens]
    split
    · refine List.Sublist.trans ?_ (List.sublist_append_right _ _)
      cases hkept : (node f k cs).kept? with
      | none => exact List.nil_sublist _
      | some c =>
        refine tokens_sublist_tokensAll ?_
        unfold kept? at hkept
        split at hkept
        · cases hkept
        · exact (List.mem_filter.mp (mem_of_asserted? hkept)).1
    · exact List.Sublist.append_left (hall cs fun t ht => ht) _

end Tree

/-! ## Texts that passes leave -/

lemma asserted?_map {α β : Type} (f : α → β) (kind : Kind) (named : List α) :
    asserted? kind (named.map f) = (asserted? kind named).map f := by
  unfold asserted?
  split
  · exact List.getLast?_map
  · exact List.head?_map

/-- The stretch of a text that one of some trees in a row covers. -/
lemma slice_row {before after : List Char} {ts : List Tree} {q : Placed}
    (h : q ∈ Placed.row (fun _ => 1) before.length ts) :
    slice (before ++ (charsAll ts ++ after)) (q.start fun _ => 1) (q.stop fun _ => 1) =
      q.tree.text := by
  induction ts generalizing before with
  | nil => cases h
  | cons t ts ih =>
    rw [charsAll_cons, List.append_assoc]
    rcases List.mem_cons.mp h with rfl | h
    · unfold slice Placed.start Placed.stop
      rw [weigh_one, weigh_one, List.take_length_add_append, List.take_left,
        List.drop_length_add_append]
      rfl
    · rw [weigh_one, ← List.length_append] at h
      rw [← List.append_assoc before]
      exact ih h

/-- **One replacement** leaves the blanks before an assertion and the text of its expression. -/
lemma apply_withoutTypes {before after : List Char} {t : Tree} (hkind : t.kind.isTypeOnly) :
    (Placed.withoutTypes ⟨before.length, t⟩).apply (before ++ (t.chars ++ after)) =
      before ++ (t.charsLeft ++ after) := by
  have hleft : t.charsLeft = t.gap ++ (t.kept?.map text).getD [] := by
    cases t with
    | leaf f k gap s =>
      have hkept : (leaf f k gap s).kept? = none := by
        unfold kept?
        split
        · rfl
        · unfold asserted?
          split <;> rfl
      have hk : k.isTypeOnly := hkind
      rw [charsLeft, if_pos hk, hkept, Tree.gap]
      exact (List.append_nil _).symm
    | node f k cs =>
      have hk : k.isTypeOnly := hkind
      rw [charsLeft, if_pos hk]
  have htake : (before ++ (t.chars ++ after)).take
      (Placed.start (fun _ => 1) ⟨before.length, t⟩) = before ++ t.gap := by
    obtain ⟨rest, hrest⟩ := t.gap_isPrefix
    rw [Placed.start, weigh_one, List.take_length_add_append, ← hrest, List.append_assoc,
      List.take_left]
  have hdrop : (before ++ (t.chars ++ after)).drop
      (Placed.stop (fun _ => 1) ⟨before.length, t⟩) = after := by
    rw [Placed.stop, weigh_one, List.drop_length_add_append, List.drop_left]
  have hinner : ∀ kept, kept = (t.kept?.map text).getD [] →
      before ++ t.gap ++ kept ++ after = before ++ (t.charsLeft ++ after) := by
    rintro kept rfl
    rw [hleft]
    simp only [List.append_assoc]
  unfold Replacement.apply
  dsimp only [Placed.withoutTypes]
  rw [htake, hdrop]
  by_cases harguments : t.kind == .typeArguments
  · rw [if_pos harguments]
    refine hinner [] ?_
    rw [kept?, if_pos harguments]
    rfl
  · rw [if_neg harguments]
    have hnamed : t.kept? =
        (asserted? t.kind (Placed.namedChildren (fun _ => 1) ⟨before.length, t⟩)).map (·.tree) := by
      rw [kept?, if_neg harguments, ← asserted?_map, Analysis.map_tree_namedChildren]
    cases hasserted : asserted? t.kind (Placed.namedChildren (fun _ => 1) ⟨before.length, t⟩) with
    | none =>
      refine hinner [] ?_
      rw [hnamed, hasserted]
      rfl
    | some q =>
      refine hinner _ ?_
      have hmem : q ∈ Placed.row (fun _ => 1) before.length t.children :=
        (List.mem_filter.mp (mem_of_asserted? hasserted)).1
      have hchars : t.chars = charsAll t.children := by
        cases t with
        | leaf => cases hmem
        | node => rw [chars]; rfl
      rw [hnamed, hasserted, hchars]
      exact slice_row hmem

/-- **A pass over a tree**, the last replacement first, leaves the text of the tokens left. -/
lemma foldr_apply_outermostBelow (before after : List Char) (t : Tree) :
    ((Placed.outermostBelow (fun _ => 1) Kind.isTypeOnly ⟨before.length, t⟩).map
        Placed.withoutTypes).foldr (fun r s => r.apply s) (before ++ (t.chars ++ after)) =
      before ++ (t.charsLeft ++ after) := by
  induction t using Tree.induction_parts generalizing before after with
  | leaf f k gap s =>
    rw [Placed.outermostBelow_eq]
    split
    · rename_i hkind
      exact apply_withoutTypes hkind
    · rename_i hkind
      have hk : ¬ k.isTypeOnly := hkind
      rw [charsLeft, if_neg hk, chars]
      rfl
  | node f k cs ih =>
    rw [Placed.outermostBelow_eq]
    split
    · rename_i hkind
      exact apply_withoutTypes hkind
    · rename_i hkind
      have hrow : ∀ (ts : List Tree) (before : List Char), (∀ t ∈ ts, t ∈ cs) →
          (((Placed.row (fun _ => 1) before.length ts).flatMap
              (Placed.outermostBelow (fun _ => 1) Kind.isTypeOnly)).map
                Placed.withoutTypes).foldr (fun r s => r.apply s)
              (before ++ (charsAll ts ++ after)) =
            before ++ (charsLeftAll ts ++ after) := by
        intro ts
        induction ts with
        | nil => intro before _; rw [charsLeftAll]; rfl
        | cons t ts ihts =>
          intro before hts
          obtain ⟨ht, hts⟩ := List.forall_mem_cons.mp hts
          -- what stands behind a tree is replaced before the tree itself
          have hlater := ihts (before ++ t.chars) hts
          rw [Placed.row, List.flatMap_cons, List.map_append, List.foldr_append, weigh_one,
            ← List.length_append, charsAll_cons, List.append_assoc t.chars,
            ← List.append_assoc before, hlater, List.append_assoc before, ih t ht, charsLeftAll,
            List.append_assoc t.charsLeft]
      have hk : ¬ k.isTypeOnly := hkind
      rw [charsLeft, if_neg hk, chars]
      exact hrow cs before fun t ht => ht

/-- Each of the outermost parts of some kinds ends before the next begins. -/
lemma pairwise_outermostBelow (weight : Char → Nat) (kinds : Kind → Bool) (p : Placed) :
    (Placed.outermostBelow weight kinds p).Pairwise fun a b => a.stop weight ≤ b.offset := by
  induction p using Placed.induction_parts weight with
  | parts p ih =>
    rw [Placed.outermostBelow_eq]
    split
    · exact List.pairwise_singleton _ _
    · refine List.pairwise_flatMap.mpr ⟨ih, (Placed.pairwise_row weight _ _).imp ?_⟩
      intro a b hab x hx y hy
      obtain ⟨-, -, -, hstop⟩ := Placed.mem_outermostBelow weight hx
      obtain ⟨-, -, hoffset, -⟩ := Placed.mem_outermostBelow weight hy
      exact Nat.le_trans hstop (Nat.le_trans hab hoffset)

/-- What a pass replaces is found from the end of the text on. -/
lemma typeOnlyParts_eq_reverse (dialect : Dialect) (s : List Char) :
    typeOnlyParts dialect s =
      ((Placed.outermostBelow (fun _ => 1) Kind.isTypeOnly ⟨0, parse dialect s⟩).map
        Placed.withoutTypes).reverse := by
  unfold typeOnlyParts
  rw [Placed.outermost_eq_reverse, List.map_reverse]

/-- What a pass replaces lies apart. -/
lemma pairwise_typeOnlyParts (dialect : Dialect) (s : List Char) :
    (typeOnlyParts dialect s).Pairwise fun a b => b.stop ≤ a.start := by
  rw [typeOnlyParts_eq_reverse, List.pairwise_reverse, List.pairwise_map]
  exact (pairwise_outermostBelow _ _ _).imp fun hab => Nat.le_trans hab (Nat.le_add_right _ _)

/-- **A pass replaces all assertions and type arguments at once**: it leaves the stretches between
them and the expressions that are asserted, in the order of the text. -/
theorem splice_typeOnlyParts (dialect : Dialect) (s : List Char) :
    splice (typeOnlyParts dialect s) s = replaceAll (typeOnlyParts dialect s) s :=
  splice_eq_replaceAll (fun r hr => (shortens_typeOnlyParts dialect s r hr).fits)
    ((pairwise_typeOnlyParts dialect s).imp Or.inr)

variable {dialect : Dialect} {s : List Char}

/-- The tree of a text without errors holds all of its characters. -/
lemma chars_parse (h : hasSyntaxErrors dialect s = false) : (parse dialect s).chars = s := by
  obtain ⟨root, hread⟩ := Option.isSome_iff_exists.mp (Option.isNone_eq_false_iff.mp h)
  unfold parse
  rw [hread, Option.getD_some, chars_readProgram? hread]

/-- **A pass over a text without errors** leaves the text of the tokens that it leaves. -/
theorem splice_eq_charsLeft (h : hasSyntaxErrors dialect s = false) :
    splice (typeOnlyParts dialect s) s = (parse dialect s).charsLeft := by
  have hpass := foldr_apply_outermostBelow [] [] (parse dialect s)
  simp only [List.nil_append, List.append_nil, chars_parse h] at hpass
  have hstarts : (typeOnlyParts dialect s).Pairwise fun a b => b.start < a.start :=
    (pairwise_typeOnlyParts dialect s).imp_of_mem fun _ hb hab =>
      Nat.lt_of_lt_of_le (shortens_typeOnlyParts dialect s _ hb).start_lt hab
  rw [splice_eq_foldr (typeOnlyParts dialect s).reverse_perm (List.pairwise_reverse.mpr hstarts),
    typeOnlyParts_eq_reverse, List.reverse_reverse]
  exact hpass

/-! ## Scripts that stay what they are -/

/-- What each pass leaves of a text is read as the tokens that it left. -/
inductive StaysRead (dialect : Dialect) : List Char → Prop
  | done {s : List Char} (h : typeOnlyParts dialect s = []) : StaysRead dialect s
  | pass {s : List Char}
      (htokens : (parse dialect (parse dialect s).charsLeft).tokens = (parse dialect s).remaining)
      (rest : StaysRead dialect (parse dialect s).charsLeft) : StaysRead dialect s

/-- A text that is read as some of the tokens of a text without errors has no errors. -/
lemma hasSyntaxErrors_of_tokens_sublist {t : List Char} (h : hasSyntaxErrors dialect s = false)
    (hsub : (parse dialect t).tokens.Sublist (parse dialect s).tokens) :
    hasSyntaxErrors dialect t = false := by
  rw [← hasError_parse, hasError_eq_false_iff_tokens] at h ⊢
  exact fun x hx => h x (hsub.mem hx)

/-- There is one text in which passes end. -/
lemma Strips.unique {t u : List Char} (ht : Strips dialect s t) (hu : Strips dialect s u) :
    t = u := by
  induction ht with
  | done h =>
    cases hu with
    | done => rfl
    | pass hne => exact absurd h hne
  | pass hne _ ih =>
    cases hu with
    | done h => exact absurd h hne
    | pass _ hrest => exact ih hrest

/-- A first pass does not change the text in which passes end. -/
lemma stripAssertions_splice (h : typeOnlyParts dialect s ≠ []) :
    stripAssertions dialect (splice (typeOnlyParts dialect s) s) = stripAssertions dialect s :=
  Strips.unique (.pass h (strips_stripAssertions dialect _)) (strips_stripAssertions dialect s)

end ThemeOverride.Script
