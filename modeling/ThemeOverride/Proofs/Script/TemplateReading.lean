import ThemeOverride.Proofs.Script.Template
import ThemeOverride.Proofs.Script.Traversal

/-!
# Reading templates

A template is read like a text, but only as far as it says what every text made from it is read
as. So one reading of a template settles the readings of all texts made from it.

## Main definitions

* `ThemeOverride.Script.Pattern.readTemplate` — what every text made from a template is read as.
* `ThemeOverride.Script.Tree.hasPlainTokens` — no place holder stands where a keyword could.

## Main results

* `ThemeOverride.Script.Pattern.settles_of_readTemplate` — a text is read as its template says.
* `ThemeOverride.Script.settles_iff` — a script is read as what settles.

## Design

A template is read to a given depth, and what it says settles what a text made from it is read as.
The readings of longer texts are put together from such readings.
-/

namespace ThemeOverride.Script

/-- What is read of a text, made from what is read of its template. -/
def Filling.made (F : Filling) (r : List Tree × List Char) : List Tree × List Char :=
  (r.1.map (Tree.fill F), F.expand r.2)

/-! ## Trees made from templates -/

namespace Tree

/-- Whether no place holder stands where a keyword of a tree could. -/
def hasPlainTokens (t : Tree) : Bool :=
  t.children.all fun c => c.kind != .token || c.text.all isOrdinary

variable (F : Filling)

mutual

lemma chars_fill : ∀ t : Tree, (t.fill F).chars = F.expand t.chars
  | .leaf f k gap text => by simp [chars]
  | .node f k cs => by
    rw [fill, chars, chars, charsAll_fill cs]

lemma charsAll_fill : ∀ ts : List Tree, charsAll (fillAll F ts) = F.expand (charsAll ts)
  | [] => by simp [fillAll]
  | t :: ts => by
    rw [fillAll, charsAll_cons, charsAll_cons, chars_fill t, charsAll_fill ts, F.expand_append]

end

mutual

lemma gap_fill : ∀ t : Tree, (t.fill F).gap = F.expand t.gap
  | .leaf f k gap text => by simp [Tree.gap]
  | .node f k cs => by
    rw [fill, Tree.gap, Tree.gap, gapAll_fill cs]

lemma gapAll_fill : ∀ ts : List Tree, gapAll (fillAll F ts) = F.expand (gapAll ts)
  | [] => by simp [fillAll, gapAll]
  | t :: ts => by
    rw [fillAll, gapAll, gapAll, gap_fill t]

end

/-- The text of a tree is made from the text of its template. -/
lemma text_fill (t : Tree) : (t.fill F).text = F.expand t.text := by
  obtain ⟨rest, hrest⟩ := t.gap_isPrefix
  unfold text
  rw [chars_fill, gap_fill, ← hrest, F.expand_append, List.drop_left', List.drop_left'] <;> rfl

lemma namedChildren_fill (t : Tree) :
    (t.fill F).namedChildren = t.namedChildren.map (fill F) := by
  unfold namedChildren
  rw [children_fill, List.filter_map]
  simp [Function.comp_def]

lemma child?_fill (t : Tree) (f : Field) :
    (t.fill F).child? f = (t.child? f).map (fill F) := by
  unfold child?
  rw [children_fill, List.find?_map]
  simp

/-- A tree made from a template has the keywords that its template has. -/
lemma hasKeyword_fill {t : Tree} (h : t.hasPlainTokens) (w : String) :
    (t.fill F).hasKeyword w = t.hasKeyword w := by
  unfold hasKeyword
  rw [children_fill, List.any_map, Bool.eq_iff_iff, List.any_eq_true, List.any_eq_true]
  refine exists_congr fun c => and_congr_right fun hc => ?_
  rw [Function.comp_apply, kind_fill, text_fill]
  cases hkind : c.kind == .token with
  | false => rfl
  | true =>
    have hplain := List.all_eq_true.mp h c hc
    rw [bne, hkind, Bool.not_true, Bool.false_or] at hplain
    rw [F.expand_ordinary hplain]

end Tree

section Trees

variable (F : Filling)

lemma takeWhile_isExtra_fill (trees : List Tree) :
    (trees.map (Tree.fill F)).takeWhile (·.kind.isExtra) =
      (trees.takeWhile (·.kind.isExtra)).map (Tree.fill F) := by
  rw [List.takeWhile_map]
  simp [Function.comp_def]

lemma dropWhile_isExtra_fill (trees : List Tree) :
    (trees.map (Tree.fill F)).dropWhile (·.kind.isExtra) =
      (trees.dropWhile (·.kind.isExtra)).map (Tree.fill F) := by
  rw [List.dropWhile_map]
  simp [Function.comp_def]

lemma wrap_fill (kind : Kind) (trees : List Tree) :
    wrap kind (trees.map (Tree.fill F)) = (wrap kind trees).map (Tree.fill F) := by
  unfold wrap
  rw [takeWhile_isExtra_fill, dropWhile_isExtra_fill]
  simp

lemma graft_fill (before more : List Tree) :
    graft (before.map (Tree.fill F)) (more.map (Tree.fill F)) =
      (graft before more).map (Tree.fill F) := by
  unfold graft
  rw [dropWhile_isExtra_fill, takeWhile_isExtra_fill]
  cases h : more.dropWhile (·.kind.isExtra) with
  | nil => simp
  | cons t rest =>
    cases rest with
    | cons u rest => simp
    | nil =>
      cases t with
      | leaf f k gap text => simp
      | node f k cs => simp [← wrap_fill]

lemma asField_fill (f : Field) (trees : List Tree) :
    Pattern.asField f (trees.map (Tree.fill F)) = (Pattern.asField f trees).map (Tree.fill F) := by
  unfold Pattern.asField
  rw [List.map_map, List.map_map]
  refine List.map_congr_left fun t _ => ?_
  rw [Function.comp_apply, Function.comp_apply, Tree.kind_fill, Tree.withField_fill]
  split <;> rfl

lemma lastKind_fill (trees : List Tree) :
    Pattern.lastKind (trees.map (Tree.fill F)) = Pattern.lastKind trees := by
  unfold Pattern.lastKind
  rw [List.getLast?_map, Option.map_map]
  simp [Function.comp_def]

end Trees

namespace Pattern

variable {R : Type}

mutual

/-- Reads a template by a pattern, to the depth `fuel`, and answers with what is read of every text
made from it; with nothing where the template does not say that. -/
def readTemplate (rules : R → Pattern R) (fuel : Nat) (left : List Tree) (p : Pattern R)
    (s : List Char) : Option (Option (List Tree × List Char)) :=
  match fuel with
  | 0 => none
  | fuel + 1 =>
    match p with
    | empty => some (some ([], s))
    | token lead kind scan =>
      if leadIsKnown lead s && scan.isKnown (skipLead lead s).2.2 then
        some (readToken lead kind scan s)
      else none
    | seq first second =>
      match readTemplate rules fuel left first s with
      | none => none
      | some none => some none
      | some (some (xs, t)) =>
        match readTemplate rules fuel left second t with
        | none => none
        | some none => some none
        | some (some (ys, u)) => some (some (xs ++ ys, u))
    | either first second =>
      match readTemplate rules fuel left first s with
      | none => none
      | some none => readTemplate rules fuel left second s
      | some (some r) => some (some r)
    | many body =>
      match readTemplate rules fuel left body s with
      | none => none
      | some none => some (some ([], s))
      | some (some (xs, t)) =>
        match readTemplate rules fuel left (many body) t with
        | none => none
        | some none => some none
        | some (some (ys, u)) => some (some (xs ++ ys, u))
    | rule r => readTemplate rules fuel left (rules r) s
    | node kind body =>
      (readTemplate rules fuel left body s).map (Option.map fun (xs, t) => (wrap kind xs, t))
    | field f body =>
      (readTemplate rules fuel left body s).map (Option.map fun (xs, t) => (asField f xs, t))
    | grow base step =>
      match readTemplate rules fuel left base s with
      | none => none
      | some none => some none
      | some (some (xs, t)) => grownTemplate rules fuel xs step t
    | after suits body =>
      if suits (lastKind left) then readTemplate rules fuel left body s else some none
    | only suits body =>
      (readTemplate rules fuel left body s).map
        (Option.filter fun (xs, _) => suits (lastKind xs))
    | ahead body => (readTemplate rules fuel left body s).map (Option.map fun _ => ([], s))
    | absent body =>
      match readTemplate rules fuel left body s with
      | none => none
      | some none => some (some ([], s))
      | some (some _) => some none
    | guard test =>
      if test.isKnown s then some (if test.holds s then some ([], s) else none) else none

/-- Grows the trees read so far of a template by a step as often as it fits. -/
def grownTemplate (rules : R → Pattern R) (fuel : Nat) (left : List Tree) (step : Pattern R)
    (s : List Char) : Option (Option (List Tree × List Char)) :=
  match fuel with
  | 0 => none
  | fuel + 1 =>
    match readTemplate rules fuel left step s with
    | none => none
    | some none => some (some (left, s))
    | some (some (xs, t)) => grownTemplate rules fuel (graft left xs) step t

end

/-- **Readings of templates.** What the template says settles what a text made from it is read as.

**Proof sketch.** Induction on the depth. What is read of a part of the template settles what is
read of the same part of the text, so that both readings take the same way through the pattern. -/
theorem settles_and_grows_of_template (rules : R → Pattern R) (F : Filling) (n : Nat) :
    (∀ left p s r, readTemplate rules n left p s = some r →
      Settles rules (left.map (Tree.fill F)) p (F.expand s) (r.map F.made)) ∧
    ∀ left step s r, grownTemplate rules n left step s = some r →
      Grows rules (left.map (Tree.fill F)) step (F.expand s) (r.map F.made) := by
  induction n with
  | zero => exact ⟨fun _ _ _ _ h => (nomatch h), fun _ _ _ _ h => (nomatch h)⟩
  | succ n ih =>
    obtain ⟨ihRead, ihGrown⟩ := ih
    constructor
    · intro left p s r h
      cases p with
      | empty =>
        cases h
        simpa [Filling.made] using Settles.empty
      | token lead kind scan =>
        rw [readTemplate] at h
        split at h
        · rename_i hknown
          obtain ⟨hlead, hscan⟩ := (Bool.and_eq_true _ _).mp hknown
          cases h
          have htoken : Settles rules (left.map (Tree.fill F)) (.token lead kind scan)
              (F.expand s) _ := .token
          rw [F.readToken_expand hlead hscan] at htoken
          exact htoken
        · cases h
      | seq first second =>
        rw [readTemplate] at h
        split at h
        · cases h
        · rename_i hfirst
          cases h
          exact (ihRead _ _ _ _ hfirst).seq_left_none
        · rename_i hfirst
          split at h
          · cases h
          · rename_i hsecond
            cases h
            exact (ihRead _ _ _ _ hfirst).seq_map (ihRead _ _ _ _ hsecond)
          · rename_i hsecond
            cases h
            simpa [Filling.made] using (ihRead _ _ _ _ hfirst).seq (ihRead _ _ _ _ hsecond)
      | either first second =>
        rw [readTemplate] at h
        split at h
        · cases h
        · rename_i hfirst
          exact (ihRead _ _ _ _ hfirst).either_right (ihRead _ _ _ _ h)
        · rename_i hfirst
          cases h
          exact (ihRead _ _ _ _ hfirst).either_left
      | many body =>
        rw [readTemplate] at h
        split at h
        · cases h
        · rename_i hbody
          cases h
          exact (ihRead _ _ _ _ hbody).many_nil
        · rename_i hbody
          split at h
          · cases h
          · rename_i hrest
            cases h
            exact (ihRead _ _ _ _ hbody).many_map (ihRead _ _ _ _ hrest)
          · rename_i hrest
            cases h
            simpa [Filling.made] using (ihRead _ _ _ _ hbody).many_cons (ihRead _ _ _ _ hrest)
      | rule rule =>
        rw [readTemplate] at h
        exact (ihRead _ _ _ _ h).rule
      | node kind body =>
        rw [readTemplate] at h
        obtain ⟨r, hbody, rfl⟩ := Option.map_eq_some_iff.mp h
        have hnode := (ihRead _ _ _ _ hbody).node_map kind
        cases r with
        | none => exact hnode
        | some r => simpa [Filling.made, wrap_fill] using hnode
      | field f body =>
        rw [readTemplate] at h
        obtain ⟨r, hbody, rfl⟩ := Option.map_eq_some_iff.mp h
        have hfield := (ihRead _ _ _ _ hbody).field_map f
        cases r with
        | none => exact hfield
        | some r => simpa [Filling.made, asField_fill] using hfield
      | grow base step =>
        rw [readTemplate] at h
        split at h
        · cases h
        · rename_i hbase
          cases h
          exact (ihRead _ _ _ _ hbase).grow_none
        · rename_i hbase
          exact (ihRead _ _ _ _ hbase).grow (ihGrown _ _ _ _ h)
      | after suits body =>
        rw [readTemplate, ← lastKind_fill F] at h
        split at h
        · rename_i hsuits
          exact (ihRead _ _ _ _ h).after hsuits
        · rename_i hsuits
          cases h
          exact Settles.after_none hsuits
      | only suits body =>
        rw [readTemplate] at h
        obtain ⟨r, hbody, rfl⟩ := Option.map_eq_some_iff.mp h
        have honly := (ihRead _ _ _ _ hbody).only_filter suits
        cases r with
        | none => exact honly
        | some r =>
          rw [Option.map_some, Option.filter_some] at honly
          rw [Option.filter_some]
          change Settles _ _ _ _ (if suits (lastKind (r.1.map (Tree.fill F))) then _ else _) at honly
          rw [lastKind_fill] at honly
          by_cases hsuits : suits (lastKind r.1)
          · rw [if_pos hsuits] at honly ⊢
            exact honly
          · rw [if_neg hsuits] at honly ⊢
            exact honly
      | ahead body =>
        rw [readTemplate] at h
        obtain ⟨r, hbody, rfl⟩ := Option.map_eq_some_iff.mp h
        have hahead := (ihRead _ _ _ _ hbody).ahead_map
        cases r <;> exact hahead
      | absent body =>
        rw [readTemplate] at h
        split at h
        · cases h
        · rename_i hbody
          cases h
          exact (ihRead _ _ _ _ hbody).absent
        · rename_i hbody
          cases h
          exact (ihRead _ _ _ _ hbody).absent_none
      | guard test =>
        rw [readTemplate] at h
        split at h
        · rename_i hknown
          cases h
          have hguard : Settles rules (left.map (Tree.fill F)) (.guard test) (F.expand s) _ :=
            .guard test
          rw [F.holds_expand hknown] at hguard
          split <;> rename_i htest <;> simpa [htest, Filling.made] using hguard
        · cases h
    · intro left step s r h
      rw [grownTemplate] at h
      split at h
      · cases h
      · rename_i hstep
        cases h
        exact .done (ihRead _ _ _ _ hstep)
      · rename_i hstep
        refine .step (ihRead _ _ _ _ hstep) ?_
        rw [graft_fill]
        exact ihGrown _ _ _ _ h

/-- A text made from a template is read as the template says. -/
lemma settles_of_readTemplate {rules : R → Pattern R} (F : Filling) {n : Nat} {p : Pattern R}
    {s : List Char} {r : Option (List Tree × List Char)}
    (h : readTemplate rules n [] p s = some r) :
    Settles rules [] p (F.expand s) (r.map F.made) :=
  (settles_and_grows_of_template rules F n).1 [] p s r h

end Pattern

/-! ## Scripts -/

/-- **Scripts.** What a script is read as settles, and only that. -/
theorem settles_iff {dialect : Dialect} {form : Form} (hfits : form.fits Rule.bounds 200)
    (hheight : form.height Rule.bounds ≤ 400) {s : List Char}
    {r : Option (List Tree × List Char)} :
    Pattern.Settles (grammar dialect) [] form s r ↔ readForm dialect form s = r := by
  have hsettles : Pattern.Settles (grammar dialect) [] form s (readForm dialect form s) :=
    ⟨depthFor s, fun fuel hfuel => readForm_eq hfits hheight hfuel⟩
  constructor
  · exact fun h => hsettles.unique h
  · rintro rfl
    exact hsettles

end ThemeOverride.Script
