import ThemeOverride.Proofs.Script.Halves
import ThemeOverride.Script.Recovery

/-!
# Trees of texts with errors

A text that the grammar cannot read has a tree with errors in it. An error is put between tokens
that are already in a tree, and never before the first token of a node, so that what holds of the
nodes that were read holds of the tree with errors as well.

## Main results

* `ThemeOverride.Script.insertAt?_cases` — where a tree is put among others.
* `ThemeOverride.Script.isParted_parse` — in the tree of any text all assertions of types are
  halved, and all type arguments have characters.
-/

namespace ThemeOverride.Script

open ThemeOverride.Script.Tree

/-! ## Errors -/

/-- Comments are there for no types. -/
lemma isParted_comments (s : List Char) : ∀ t ∈ (comments s).1, t.IsParted := by
  intro t ht
  obtain ⟨gap, text, rfl⟩ := exists_leaf_of_mem_comments ht
  exact isParted_leaf rfl

/-- Tokens outside of any order are there for no types. -/
lemma isParted_tokenLeaves (fuel : Nat) (s : List Char) :
    ∀ t ∈ tokenLeaves fuel s, t.IsParted := by
  induction fuel generalizing s with
  | zero => simp [tokenLeaves]
  | succ fuel ih =>
    have hcomments := isParted_comments s
    unfold tokenLeaves
    generalize comments s = r at hcomments
    obtain ⟨extras, gap, rest⟩ := r
    cases rest with
    | nil => exact hcomments
    | cons c rest =>
      have hkind : (anyToken (c :: rest)).1.isTypeOnly = false := by
        unfold anyToken
        repeat' split
        all_goals rfl
      exact List.forall_mem_append.mpr
        ⟨hcomments, List.forall_mem_cons.mpr ⟨isParted_leaf hkind, ih _⟩⟩

lemma isParted_errorNode (s : List Char) : (errorNode s).IsParted :=
  isParted_iff.mpr ⟨standsApart_of_not_typeOnly rfl, isParted_tokenLeaves _ s⟩

/-! ## Trees put among others -/

/-- **Where a tree is put among others**: between two of them, or strictly inside of one. -/
theorem insertAt?_cases {new : Tree} {place : Nat} {ts ts' : List Tree}
    (h : insertAt? new place ts = some ts') :
    (∃ before after, ts = before ++ after ∧ ts' = before ++ new :: after ∧
      (charsAll before).length = place) ∨
    ∃ before t t' after, ts = before ++ t :: after ∧ ts' = before ++ t' :: after ∧
      (charsAll before).length < place ∧
        insertInside? new (place - (charsAll before).length) t = some t' := by
  induction ts generalizing place ts' with
  | nil =>
    rw [insertAt?] at h
    split at h
    · rename_i hzero
      cases h
      exact Or.inl ⟨[], [], rfl, rfl, (beq_iff_eq.mp hzero).symm⟩
    · cases h
  | cons t ts ih =>
    rw [insertAt?] at h
    split at h
    · rename_i hzero
      cases h
      exact Or.inl ⟨[], t :: ts, rfl, rfl, (beq_iff_eq.mp hzero).symm⟩
    · rename_i hpos
      have hpos : 0 < place := Nat.pos_of_ne_zero fun hzero => hpos (beq_iff_eq.mpr hzero)
      split at h
      · obtain ⟨t', ht', rfl⟩ := Option.map_eq_some_iff.mp h
        exact Or.inr ⟨[], t, t', ts, rfl, rfl, by simpa using hpos, by simpa using ht'⟩
      · rename_i hbehind
        obtain ⟨rest, hrest, rfl⟩ := Option.map_eq_some_iff.mp h
        rcases ih hrest with ⟨before, after, rfl, rfl, hplace⟩ |
          ⟨before, u, u', after, rfl, rfl, hplace, hinside⟩
        · refine Or.inl ⟨t :: before, after, rfl, rfl, ?_⟩
          rw [charsAll_cons, List.length_append]
          omega
        · refine Or.inr ⟨t :: before, u, u', after, rfl, rfl, ?_, ?_⟩
          · rw [charsAll_cons, List.length_append]
            omega
          · rwa [charsAll_cons, List.length_append, ← Nat.sub_sub]

/-- A row stays halved where one tree of it is put in, or gets longer. -/
lemma Halved.mono {before mid mid' after : List Tree} (h : Halved (before ++ (mid ++ after)))
    (hgap : gapAll (before ++ (mid' ++ after)) = gapAll (before ++ (mid ++ after)))
    (hlength : (charsAll mid).length ≤ (charsAll mid').length) (hmid : mid.length ≤ 1) :
    Halved (before ++ (mid' ++ after)) := by
  obtain ⟨xs, ys, heq, hxs, hys⟩ := h
  rw [← hgap] at hxs
  rcases List.append_eq_append_iff.mp heq with ⟨a, rfl, hrest⟩ | ⟨c, rfl, rfl⟩
  · -- the split is behind the first trees
    cases a with
    | nil =>
      refine ⟨before, mid' ++ after, rfl, by simpa using hxs, ?_⟩
      rw [List.nil_append] at hrest
      rw [← hrest] at hys
      have hpos := List.length_pos_iff.mpr hys
      refine List.length_pos_iff.mp ?_
      rw [charsAll_append, List.length_append] at hpos ⊢
      omega
    | cons u a =>
      obtain ⟨b, hb, rfl⟩ : ∃ b, u :: a = mid ++ b ∧ after = b ++ ys := by
        cases mid with
        | nil => exact ⟨u :: a, rfl, hrest⟩
        | cons m mid =>
          have hnil : mid = [] := List.length_eq_zero_iff.mp (by simpa using hmid)
          subst hnil
          obtain ⟨rfl, htail⟩ := List.cons.inj hrest
          exact ⟨a, rfl, htail⟩
      refine ⟨before ++ (mid' ++ b), ys, by simp, ?_, hys⟩
      rw [hb] at hxs
      simp only [charsAll_append, List.length_append] at hxs ⊢
      omega
  · refine ⟨xs, c ++ (mid' ++ after), by simp, by simpa using hxs, ?_⟩
    have hpos := List.length_pos_iff.mpr hys
    refine List.length_pos_iff.mp ?_
    simp only [charsAll_append, List.length_append] at hpos ⊢
    omega

/-- A tree stays what it is where another is put inside of it, with no more before its first
token. -/
lemma insertInside?_parted {new t t' : Tree} {place : Nat} (hnew : new.IsParted) (hplace : 0 < place)
    (h : insertInside? new place t = some t') :
    t'.kind = t.kind ∧ t'.gap = t.gap ∧
      t'.chars.length = t.chars.length + new.chars.length ∧ (t.IsParted → t'.IsParted) := by
  induction t using Tree.induction_parts generalizing place t' with
  | leaf f k gap text => cases h
  | node f k cs ih =>
    rw [insertInside?] at h
    obtain ⟨cs', hcs', rfl⟩ := Option.map_eq_some_iff.mp h
    -- in both cases one tree of the row is replaced by a longer one, or put in
    obtain ⟨before, mid, mid', after, rfl, rfl, hmid, hgap, hlength, hparted⟩ :
        ∃ before mid mid' after, cs = before ++ (mid ++ after) ∧ cs' = before ++ (mid' ++ after) ∧
          mid.length ≤ 1 ∧ gapAll (before ++ (mid' ++ after)) = gapAll (before ++ (mid ++ after)) ∧
          (charsAll mid').length = (charsAll mid).length + new.chars.length ∧
          ((∀ c ∈ mid, c.IsParted) → ∀ c ∈ mid', c.IsParted) := by
      rcases insertAt?_cases hcs' with ⟨before, after, rfl, rfl, hbefore⟩ |
        ⟨before, u, u', after, rfl, rfl, hbefore, hinside⟩
      · refine ⟨before, [], [new], after, rfl, rfl, Nat.zero_le _, ?_, by simp, fun _ => by simpa⟩
        have hne : before ≠ [] := by
          rintro rfl
          simp at hbefore
          omega
        rw [Solid.gapAll_append hne, Solid.gapAll_append hne]
      · obtain ⟨-, hgap, hlength, hparted⟩ := ih u (by simp) (Nat.sub_pos_of_lt hbefore) hinside
        refine ⟨before, [u], [u'], after, rfl, rfl, Nat.le_refl _, ?_, by simpa using hlength,
          by simpa using hparted⟩
        cases before with
        | nil => simpa [gapAll] using hgap
        | cons b before => simp [gapAll]
    have hchars : (charsAll (before ++ (mid' ++ after))).length =
        (charsAll (before ++ (mid ++ after))).length + new.chars.length := by
      simp only [charsAll_append, List.length_append]
      omega
    refine ⟨rfl, by simpa only [Tree.gap] using hgap, by simpa only [chars] using hchars, ?_⟩
    intro ht
    obtain ⟨⟨hassert, harguments⟩, hparts⟩ := isParted_iff.mp ht
    refine isParted_iff.mpr ⟨⟨fun hk => ?_, fun hk => ?_⟩, fun c hc => ?_⟩
    · exact Halved.mono (hassert hk) hgap (by omega) hmid
    · have hpos := harguments hk
      simp only [Tree.gap, chars] at hpos ⊢
      rw [hgap, hchars]
      omega
    · simp only [children, List.mem_append] at hc hparts
      rcases hc with hc | hc | hc
      · exact hparts c (Or.inl hc)
      · exact hparted (fun c hc => hparts c (Or.inr (Or.inl hc))) c hc
      · exact hparts c (Or.inr (Or.inr hc))

/-- Trees stay what they are where another is put among them. -/
lemma isParted_insertAt? {new : Tree} {place : Nat} {ts ts' : List Tree} (hnew : new.IsParted)
    (h : insertAt? new place ts = some ts') (hts : ∀ t ∈ ts, t.IsParted) :
    ∀ t ∈ ts', t.IsParted := by
  rcases insertAt?_cases h with ⟨before, after, rfl, rfl, -⟩ |
    ⟨before, u, u', after, rfl, rfl, hbefore, hinside⟩
  · rw [List.forall_mem_append] at hts ⊢
    exact ⟨hts.1, List.forall_mem_cons.mpr ⟨hnew, hts.2⟩⟩
  · obtain ⟨-, -, -, hparted⟩ := insertInside?_parted hnew (Nat.sub_pos_of_lt hbefore) hinside
    rw [List.forall_mem_append, List.forall_mem_cons] at hts ⊢
    exact ⟨hts.1, hparted hts.2.1, hts.2.2⟩

/-! ## Trees of texts -/

variable {dialect : Dialect}

/-- What the grammar reads is parted. -/
lemma isParted_readForm {form : Form} (hform : form.parted Rule.solid false) {s rest : List Char}
    {trees : List Tree} (h : readForm dialect form s = some (trees, rest)) :
    ∀ t ∈ trees, t.IsParted :=
  (Pattern.Reads.of_read h).parted (grammar_parted dialect) false hform

lemma isParted_statementWithout? {s rest : List Char} {start stop : Nat} {trees : List Tree}
    (h : statementWithout? dialect s start stop = some (trees, rest)) :
    ∀ t ∈ trees, t.IsParted := by
  unfold statementWithout? at h
  split at h
  · cases h
  · rename_i read rest' hread
    split at h
    · cases h
    · obtain ⟨trees', hinsert, heq⟩ := Option.map_eq_some_iff.mp h
      obtain ⟨rfl, rfl⟩ := Prod.mk.inj heq
      exact isParted_insertAt? (isParted_errorNode _) hinsert
        (isParted_readForm ((grammar_parted dialect).parted .statement) hread)

lemma isParted_repairStatement? {s rest : List Char} {trees : List Tree}
    (h : repairStatement? dialect s = some (trees, rest)) : ∀ t ∈ trees, t.IsParted := by
  unfold repairStatement? at h
  obtain ⟨n, -, hn⟩ := List.exists_of_findSome?_eq_some h
  obtain ⟨⟨start, stop⟩, -, hstretch⟩ := List.exists_of_findSome?_eq_some hn
  dsimp only at hstretch
  split at hstretch
  · cases hstretch
  · exact isParted_statementWithout? hstretch

/-- What comes of the first statement of a text. -/
lemma isParted_firstStatement {s rest : List Char} {trees : List Tree}
    (h : ((readForm dialect Form.statement s).or (repairStatement? dialect s)).getD
      (skipSection s) = (trees, rest)) : ∀ t ∈ trees, t.IsParted := by
  cases hread : readForm dialect Form.statement s with
  | some r =>
    rw [hread, Option.some_or, Option.getD_some] at h
    exact isParted_readForm ((grammar_parted dialect).parted .statement) (h ▸ hread)
  | none =>
    rw [hread, Option.none_or] at h
    cases hrepair : repairStatement? dialect s with
    | some r =>
      rw [hrepair, Option.getD_some] at h
      exact isParted_repairStatement? (h ▸ hrepair)
    | none =>
      rw [hrepair, Option.getD_none] at h
      unfold skipSection at h
      obtain ⟨rfl, -⟩ := Prod.mk.inj h
      simpa using isParted_errorNode _

lemma isParted_readStatements (fuel : Nat) (s : List Char) :
    ∀ t ∈ readStatements dialect fuel s, t.IsParted := by
  induction fuel generalizing s with
  | zero => simpa [readStatements] using isParted_errorNode s
  | succ fuel ih =>
    unfold readStatements
    split
    · refine List.forall_mem_append.mpr ⟨isParted_comments s, fun t ht => ?_⟩
      rw [List.mem_singleton.mp ht]
      exact isParted_leaf rfl
    · cases hfirst : ((readForm dialect Form.statement s).or (repairStatement? dialect s)).getD
          (skipSection s) with
      | mk trees rest => exact List.forall_mem_append.mpr ⟨isParted_firstStatement hfirst, ih rest⟩

/-- **Assertions in the tree of any text** are halved, and type arguments have characters. -/
theorem isParted_parse (dialect : Dialect) (s : List Char) : (parse dialect s).IsParted := by
  have hplain : ∀ trees, (Tree.node none .program trees).StandsApart := fun _ =>
    standsApart_of_not_typeOnly rfl
  unfold parse
  cases hprogram : readProgram? dialect s with
  | none => exact isParted_iff.mpr ⟨hplain _, isParted_readStatements _ s⟩
  | some root =>
    obtain ⟨trees, hform, rfl⟩ := readProgram?_eq_some_iff.mp hprogram
    have hparted : Form.program.parted Rule.solid false := rfl
    exact isParted_iff.mpr ⟨hplain _, isParted_readForm hparted hform⟩

end ThemeOverride.Script
