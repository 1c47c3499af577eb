import Mathlib.Data.List.TakeWhile
import ThemeOverride.Proofs.Script.Depth
import ThemeOverride.Proofs.Script.Traversal
import ThemeOverride.Script.Assertion

/-!
# What assertions of types are made of

A node that asserts the type of an expression holds more than the expression: another part with
characters of its own stands beside it. So no part of such a node covers all of the node, and the
node is longer than whatever takes its place.

## Main definitions

* `ThemeOverride.Script.Halved` — trees in a row can be split between two of them, with characters
  on both sides.
* `ThemeOverride.Script.Tree.IsParted` — all assertions of types in a tree are halved, and all type
  arguments have characters.
* `ThemeOverride.Script.Pattern.solid`, `parted` — what makes the readings of a pattern so.

## Main results

* `ThemeOverride.Script.Pattern.Reads.solid`, `Reads.parted` — the readings of such patterns.
* `ThemeOverride.Script.grammar_parted` — the patterns of the grammar are such.

## Design

A node of an assertion is made in one of two ways. Its pattern reads two parts with characters; or
it is a step that grows what was read before, which becomes the first part of the node. In the
second case the node that the step reads has only one half, and it is the graft that gives it the
other. `parted` is told in which of the two places a pattern stands.

Comments may stand before the first token of a node. They are left outside of it, so that the
first part of a node is never a comment.
-/

namespace ThemeOverride.Script

open ThemeOverride.Script.Tree

/-! ## Trees as parts -/

@[simp] lemma Tree.kind_withField (f : Field) (t : Tree) : (t.withField f).kind = t.kind := by
  cases t <;> rfl

@[simp] lemma Tree.gap_withField (f : Field) (t : Tree) : (t.withField f).gap = t.gap := by
  cases t <;> simp [withField, Tree.gap]

@[simp] lemma Tree.children_withField (f : Field) (t : Tree) :
    (t.withField f).children = t.children := by
  cases t <;> rfl

/-! ## Nodes around trees -/

/-- Trees in a row from the first on that is neither a comment nor an error. -/
def core (ts : List Tree) : List Tree := ts.dropWhile (·.kind.isExtra)

lemma core_append_of_ne_nil {xs ys : List Tree} (h : core xs ≠ []) :
    core (xs ++ ys) = core xs ++ ys := by
  unfold core at h ⊢
  rw [List.dropWhile_append, if_neg (by simpa using h)]

lemma core_append_of_nil {xs ys : List Tree} (h : core xs = []) : core (xs ++ ys) = core ys := by
  unfold core at h ⊢
  rw [List.dropWhile_append, if_pos (by simpa using h)]

lemma takeWhile_append_core (ts : List Tree) : ts.takeWhile (·.kind.isExtra) ++ core ts = ts :=
  List.takeWhile_append_dropWhile

lemma mem_of_mem_core {ts : List Tree} {t : Tree} (h : t ∈ core ts) : t ∈ ts :=
  (List.dropWhile_sublist _).mem h

lemma wrap_eq (k : Kind) (ts : List Tree) :
    wrap k ts = ts.takeWhile (·.kind.isExtra) ++ [.node none k (core ts)] := rfl

lemma core_wrap {k : Kind} (hk : k.isExtra = false) (ts : List Tree) :
    core (wrap k ts) = [.node none k (core ts)] := by
  have hextras : core (ts.takeWhile (·.kind.isExtra)) = [] := by
    refine List.dropWhile_eq_nil_iff.mpr fun t ht => ?_
    exact List.mem_takeWhile_imp (p := fun t : Tree => t.kind.isExtra) ht
  rw [wrap_eq, core_append_of_nil hextras]
  exact List.dropWhile_cons_of_neg (by simp [Tree.kind, hk])

/-- What grafts onto trees is either a node, which takes them and its own parts, or stands behind
them. -/
lemma graft_cases (before more : List Tree) :
    (∃ f k cs, core more = [.node f k cs] ∧ k.isExtra = false ∧
      graft before more = wrap k (before ++ (more.takeWhile (·.kind.isExtra) ++ cs))) ∨
    ((∀ f k cs, core more ≠ [.node f k cs]) ∧ graft before more = before ++ more) := by
  unfold graft
  split
  · rename_i f k cs hcore
    refine Or.inl ⟨f, k, cs, hcore, ?_, by rw [List.append_assoc]⟩
    have hhead := List.head?_dropWhile_not (fun t : Tree => t.kind.isExtra) more
    rw [hcore] at hhead
    exact hhead
  · rename_i hnode
    exact Or.inr ⟨hnode, rfl⟩

/-! ## Solid trees -/

/-- Some trees in a row, comments before them aside, have characters behind the blanks before
them. -/
def Solid (ts : List Tree) : Prop := (gapAll (core ts)).length < (charsAll (core ts)).length

namespace Solid

variable {xs ys : List Tree}

lemma core_ne_nil (h : Solid xs) : core xs ≠ [] := by
  intro hnil
  rw [Solid, hnil] at h
  simp [gapAll] at h

lemma charsAll_core_ne_nil (h : Solid xs) : charsAll (core xs) ≠ [] := by
  intro hnil
  rw [Solid, hnil] at h
  exact Nat.not_lt_zero _ h

lemma charsAll_ne_nil (h : Solid xs) : charsAll xs ≠ [] := by
  rw [← takeWhile_append_core xs, charsAll_append]
  exact List.append_ne_nil_of_right_ne_nil _ h.charsAll_core_ne_nil

lemma gapAll_append (h : xs ≠ []) : gapAll (xs ++ ys) = gapAll xs := by
  cases xs with
  | nil => exact absurd rfl h
  | cons x xs => simp [gapAll]

lemma append_right (h : Solid xs) (ys : List Tree) : Solid (xs ++ ys) := by
  have hne := h.core_ne_nil
  unfold Solid at h ⊢
  rw [core_append_of_ne_nil hne, gapAll_append hne, charsAll_append, List.length_append]
  omega

lemma append_left (xs : List Tree) (h : Solid ys) : Solid (xs ++ ys) := by
  by_cases hnil : core xs = []
  · unfold Solid at h ⊢
    rwa [core_append_of_nil hnil]
  · -- the first trees may have no characters, but then those behind them have some
    have hpos := List.length_pos_iff.mpr h.charsAll_ne_nil
    have hgap := (gapAll_isPrefix (core xs)).length_le
    unfold Solid
    rw [core_append_of_ne_nil hnil, gapAll_append hnil, charsAll_append, List.length_append]
    omega

lemma wrap {k : Kind} (hk : k.isExtra = false) (h : Solid xs) : Solid (wrap k xs) := by
  unfold Solid at h ⊢
  rw [core_wrap hk]
  simpa [gapAll, Tree.gap, chars] using h

lemma asField (f : Field) (h : Solid xs) : Solid (Pattern.asField f xs) := by
  have hcore : core (Pattern.asField f xs) = Pattern.asField f (core xs) := by
    unfold core Pattern.asField
    rw [List.dropWhile_map]
    congr 2
    funext t
    by_cases ht : t.kind.isExtra <;> simp [ht]
  have hgap : ∀ ts, gapAll (Pattern.asField f ts) = gapAll ts := by
    intro ts
    cases ts with
    | nil => rfl
    | cons t ts =>
      by_cases ht : t.kind.isExtra <;> simp [Pattern.asField, gapAll, ht]
  unfold Solid at h ⊢
  rwa [hcore, hgap, Pattern.charsAll_asField]

lemma graft (h : Solid xs) (more : List Tree) : Solid (graft xs more) := by
  rcases graft_cases xs more with ⟨f, k, cs, -, hk, heq⟩ | ⟨-, heq⟩
  · rw [heq]
    exact (h.append_right _).wrap hk
  · rw [heq]
    exact h.append_right more

end Solid

/-! ## Parted trees -/

/-- Some trees in a row can be split between two of them, with characters on both sides behind the
blanks before them all. -/
def Halved (ts : List Tree) : Prop :=
  ∃ xs ys, ts = xs ++ ys ∧ (gapAll ts).length < (charsAll xs).length ∧ charsAll ys ≠ []

namespace Tree

/-- A node that asserts a type is halved, and type arguments have characters. -/
def StandsApart (t : Tree) : Prop :=
  (t.kind.isAssertion → Halved t.children) ∧
    (t.kind = .typeArguments → t.gap.length < t.chars.length)

/-- In a tree all nodes that assert types are halved, and all type arguments have characters. -/
def IsParted (t : Tree) : Prop := ∀ part, Within part t → part.StandsApart

lemma isParted_iff {t : Tree} : t.IsParted ↔ t.StandsApart ∧ ∀ c ∈ t.children, c.IsParted := by
  constructor
  · intro h
    exact ⟨h t (.self t), fun c hc part hpart => h part (.inside hc hpart)⟩
  · rintro ⟨hself, hparts⟩ part hpart
    rcases within_iff.mp hpart with rfl | ⟨c, hc, hpart⟩
    · exact hself
    · exact hparts c hc part hpart

lemma standsApart_of_not_typeOnly {t : Tree} (h : t.kind.isTypeOnly = false) : t.StandsApart := by
  unfold Kind.isTypeOnly at h
  obtain ⟨hassert, harguments⟩ := Bool.or_eq_false_iff.mp h
  refine ⟨fun h => ?_, fun h => ?_⟩
  · rw [hassert] at h
    cases h
  · rw [h] at harguments
    cases harguments

lemma isParted_leaf {f : Option Field} {k : Kind} {gap text : List Char}
    (h : k.isTypeOnly = false) : (leaf f k gap text).IsParted :=
  isParted_iff.mpr ⟨standsApart_of_not_typeOnly h, fun _ hc => absurd hc List.not_mem_nil⟩

lemma isParted_withField {f : Field} {t : Tree} (h : t.IsParted) : (t.withField f).IsParted := by
  obtain ⟨hself, hparts⟩ := isParted_iff.mp h
  refine isParted_iff.mpr ⟨?_, by rwa [children_withField]⟩
  unfold StandsApart at hself ⊢
  rwa [kind_withField, children_withField, gap_withField, chars_withField]

/-- The node around some trees, if it is halved where it asserts a type, and has characters where it
gives type arguments. -/
lemma isParted_wrap {k : Kind} {ts : List Tree} (h : ∀ t ∈ ts, t.IsParted)
    (hassert : k.isAssertion → Halved (core ts)) (harguments : k = .typeArguments → Solid ts) :
    ∀ t ∈ wrap k ts, t.IsParted := by
  intro t ht
  rw [wrap_eq, List.mem_append, List.mem_singleton] at ht
  rcases ht with ht | rfl
  · exact h t ((List.takeWhile_sublist _).mem ht)
  · refine isParted_iff.mpr ⟨⟨hassert, fun hk => ?_⟩, fun c hc => h c (mem_of_mem_core hc)⟩
    have hsolid := harguments hk
    unfold Solid at hsolid
    simpa only [Tree.gap, chars] using hsolid

end Tree

/-- What a step reads is parted, but for the node to which the trees before it are still to be
added. -/
def StepParted (more : List Tree) : Prop :=
  ∀ t ∈ more, t.IsParted ∨
    ∃ f k cs, core more = [.node f k cs] ∧ t = .node f k cs ∧ (∀ c ∈ cs, c.IsParted) ∧
      charsAll cs ≠ []

/-- Grafting gives the node of a step the half that it lacks. -/
lemma isParted_graft {left more : List Tree} (hsolid : Solid left) (hleft : ∀ t ∈ left, t.IsParted)
    (hmore : StepParted more) : ∀ t ∈ graft left more, t.IsParted := by
  rcases graft_cases left more with ⟨f, k, cs, hcore, hk, heq⟩ | ⟨hnode, heq⟩
  · have hmem : Tree.node f k cs ∈ more := mem_of_mem_core (by rw [hcore]; exact List.mem_singleton_self _)
    -- the node of the step has parted parts, and characters where it asserts a type
    have hparts : (∀ c ∈ cs, c.IsParted) ∧ (k.isAssertion → charsAll cs ≠ []) := by
      rcases hmore _ hmem with hparted | ⟨f', k', cs', -, heq', hparts, hchars⟩
      · obtain ⟨hself, hparts⟩ := isParted_iff.mp hparted
        refine ⟨hparts, fun hassert => ?_⟩
        obtain ⟨xs, ys, hcs, -, hys⟩ := hself.1 hassert
        have hcs : cs = xs ++ ys := hcs
        rw [hcs, charsAll_append]
        exact List.append_ne_nil_of_right_ne_nil _ hys
      · obtain ⟨-, -, rfl⟩ := Tree.node.inj heq'
        exact ⟨hparts, fun _ => hchars⟩
    have hextras : ∀ t ∈ more.takeWhile (·.kind.isExtra), t.IsParted := by
      intro t ht
      rcases hmore t ((List.takeWhile_sublist _).mem ht) with hparted | ⟨f', k', cs', hcore', rfl, -⟩
      · exact hparted
      · rw [hcore] at hcore'
        obtain ⟨-, rfl, -⟩ := Tree.node.inj (List.head_eq_of_cons_eq hcore')
        have hextra : k.isExtra = true :=
          List.mem_takeWhile_imp (p := fun t : Tree => t.kind.isExtra) ht
        rw [hk] at hextra
        cases hextra
    rw [heq]
    refine isParted_wrap ?_ (fun hassert => ?_) fun _ => hsolid.append_right _
    · intro t ht
      rcases List.mem_append.mp ht with ht | ht
      · exact hleft t ht
      · exact (List.mem_append.mp ht).elim (hextras t) (hparts.1 t)
    · refine ⟨core left, _, core_append_of_ne_nil hsolid.core_ne_nil, ?_, ?_⟩
      · rw [core_append_of_ne_nil hsolid.core_ne_nil, Solid.gapAll_append hsolid.core_ne_nil]
        exact hsolid
      · rw [charsAll_append]
        exact List.append_ne_nil_of_right_ne_nil _ (hparts.2 hassert)
  · rw [heq]
    intro t ht
    rcases List.mem_append.mp ht with ht | ht
    · exact hleft t ht
    · rcases hmore t ht with hparted | ⟨f, k, cs, hcore, -⟩
      · exact hparted
      · exact absurd hcore (hnode f k cs)

/-! ## Patterns -/

namespace Pattern

variable {R : Type} (solidRule : R → Bool)

/-- Whether what a pattern reads has characters behind the comments and blanks before it. -/
def solid : Pattern R → Bool
  | token _ kind scan => scan.takes && !kind.isExtra
  | seq first second => first.solid || second.solid
  | either first second => first.solid && second.solid
  | rule r => solidRule r
  | node kind body => !kind.isExtra && body.solid
  | field _ body | after _ body | only _ body => body.solid
  | grow base _ => base.solid
  | empty | many _ | ahead _ | absent _ | guard _ => false

/-- Whether a pattern reads two others, each with characters. -/
def halves : Pattern R → Bool
  | seq first second => first.solid solidRule && second.solid solidRule
  | _ => false

/-- Whether a pattern only looks at the text. -/
def silent : Pattern R → Bool
  | empty | ahead _ | absent _ | guard _ => true
  | _ => false

/-- Whether what a pattern reads is parted. As a step, a node may lack the half that the trees read
before it will be. -/
def parted (step : Bool) : Pattern R → Bool
  | token _ kind _ => !kind.isTypeOnly
  | seq first second =>
    if first.silent then second.parted step else first.parted false && second.parted false
  | either first second => first.parted step && second.parted step
  | many body | field _ body => body.parted false
  | after _ body | only _ body => body.parted step
  | node kind body =>
    body.parted false &&
      (!kind.isTypeOnly ||
        if step || kind == .typeArguments then body.solid solidRule else body.halves solidRule)
  | grow base next => base.parted false && base.solid solidRule && next.parted true
  | empty | rule _ | ahead _ | absent _ | guard _ => true

end Pattern

/-- What is known of the rules of a grammar holds of their patterns. -/
structure PartedRules {R : Type} (solidRule : R → Bool) (rules : R → Pattern R) : Prop where
  solid : ∀ r, solidRule r → (rules r).solid solidRule
  parted : ∀ r, (rules r).parted solidRule false

namespace Pattern

variable {R : Type} {solidRule : R → Bool} {rules : R → Pattern R}

lemma readToken_solid {lead : Lead} {kind : Kind} {scan : Scanner} (htakes : scan.takes)
    (hkind : kind.isExtra = false) {s t : List Char} {trees : List Tree}
    (h : readToken lead kind scan s = some (trees, t)) : Solid trees := by
  simp only [readToken, Option.map_eq_some_iff, Prod.mk.injEq] at h
  obtain ⟨n, hn, rfl, -⟩ := h
  refine Solid.append_left _ ?_
  have hne : (skipLead lead s).2.2 ≠ [] := by
    intro hnil
    rw [hnil, Scanner.length_nil htakes] at hn
    cases hn
  have hpos := Scanner.length_pos htakes hn
  have htext := List.length_pos_iff.mpr hne
  have hcore : core [Tree.leaf none kind (skipLead lead s).2.1 ((skipLead lead s).2.2.take n)] =
      [Tree.leaf none kind (skipLead lead s).2.1 ((skipLead lead s).2.2.take n)] :=
    List.dropWhile_cons_of_neg (by simp [Tree.kind, hkind])
  unfold Solid
  rw [hcore]
  simp only [gapAll, Tree.gap, charsAll_cons, charsAll_nil, chars, List.append_nil,
    List.length_append, List.length_take]
  omega

/-- **Solid patterns** read trees that have characters behind the comments and blanks before
them. -/
theorem Reads.solid (hold : PartedRules solidRule rules) {left xs : List Tree} {p : Pattern R}
    {s t : List Char} (h : Reads rules left p s xs t) (hp : p.solid solidRule) : Solid xs := by
  induction h with
  | token htoken =>
    obtain ⟨htakes, hkind⟩ := (Bool.and_eq_true _ _).mp hp
    exact readToken_solid htakes (by simpa using hkind) htoken
  | seq _ _ ihFirst ihSecond =>
    rcases (Bool.or_eq_true _ _).mp hp with hp | hp
    · exact (ihFirst hp).append_right _
    · exact (ihSecond hp).append_left _
  | first _ ih => exact ih ((Bool.and_eq_true _ _).mp hp).1
  | second _ ih => exact ih ((Bool.and_eq_true _ _).mp hp).2
  | rule _ ih => exact ih (hold.solid _ hp)
  | node _ ih =>
    obtain ⟨hkind, hbody⟩ := (Bool.and_eq_true _ _).mp hp
    exact (ih hbody).wrap (by simpa using hkind)
  | field _ ih => exact (ih hp).asField _
  | base _ ih | after _ _ ih | only _ _ ih => exact ih hp
  | grown _ _ ih _ => exact (ih hp).graft _
  | empty | done | again | ahead | absent | guard => cases hp

/-- What a pattern reads, in its place. -/
def Meets (step : Bool) (trees : List Tree) : Prop :=
  if step then StepParted trees else ∀ t ∈ trees, t.IsParted

lemma meets_of_isParted {step : Bool} {trees : List Tree} (h : ∀ t ∈ trees, t.IsParted) :
    Meets step trees := by
  cases step with
  | true => exact fun t ht => Or.inl (h t ht)
  | false => exact h

lemma isExtra_of_isTypeOnly {kind : Kind} (h : kind.isTypeOnly) : kind.isExtra = false := by
  unfold Kind.isExtra
  split
  · cases h
  · cases h
  · rfl

/-- A pattern that only looks at the text reads no trees. -/
lemma Reads.eq_nil_of_silent {left xs : List Tree} {p : Pattern R} {s t : List Char}
    (h : Reads rules left p s xs t) (hp : p.silent) : xs = [] := by
  cases h with
  | empty | ahead | absent | guard => rfl
  | _ => cases hp

lemma readToken_parted {lead : Lead} {kind : Kind} {scan : Scanner}
    (hkind : kind.isTypeOnly = false) {s t : List Char} {trees : List Tree}
    (h : readToken lead kind scan s = some (trees, t)) : ∀ x ∈ trees, x.IsParted := by
  intro x hx
  obtain ⟨k, gap, text, rfl, rfl | rfl⟩ := exists_leaf_of_readToken h hx
  · exact isParted_leaf rfl
  · exact isParted_leaf hkind

/-- What is read by two patterns with characters is halved. -/
lemma Reads.halves (hold : PartedRules solidRule rules) {left xs : List Tree} {p : Pattern R}
    {s t : List Char} (h : Reads rules left p s xs t) (hp : p.halves solidRule) :
    Solid xs ∧ Halved (core xs) := by
  cases h with
  | seq hfirst hsecond =>
    obtain ⟨hpFirst, hpSecond⟩ := (Bool.and_eq_true _ _).mp hp
    have hsolid := hfirst.solid hold hpFirst
    have hrest := (hsecond.solid hold hpSecond).charsAll_ne_nil
    refine ⟨hsolid.append_right _, core _, _, core_append_of_ne_nil hsolid.core_ne_nil, ?_, hrest⟩
    rw [core_append_of_ne_nil hsolid.core_ne_nil, Solid.gapAll_append hsolid.core_ne_nil]
    exact hsolid
  | _ => cases hp

/-- The node that a pattern makes of what it reads. -/
lemma meets_wrap {step : Bool} {kind : Kind} {body : Pattern R} {ys : List Tree}
    (hkind : !kind.isTypeOnly || if step || kind == .typeArguments then body.solid solidRule
      else body.halves solidRule)
    (hys : ∀ t ∈ ys, t.IsParted) (hsolid : body.solid solidRule → Solid ys)
    (hhalves : body.halves solidRule → Solid ys ∧ Halved (core ys)) :
    Meets step (wrap kind ys) := by
  cases htypes : kind.isTypeOnly with
  | false =>
    have hplain := standsApart_of_not_typeOnly (t := .node none kind ys) htypes
    refine meets_of_isParted (isParted_wrap hys (fun hassert => ?_) fun harguments => ?_)
    · unfold Kind.isTypeOnly at htypes
      rw [hassert] at htypes
      cases htypes
    · rw [harguments] at htypes
      cases htypes
  | true =>
    rw [htypes, Bool.not_true, Bool.false_or] at hkind
    by_cases harguments : kind = .typeArguments
    · rw [harguments, beq_self_eq_true, Bool.or_true, if_pos rfl] at hkind
      refine meets_of_isParted (isParted_wrap hys (fun hassert => ?_) fun _ => hsolid hkind)
      rw [harguments] at hassert
      cases hassert
    · rw [beq_eq_false_iff_ne.mpr harguments, Bool.or_false] at hkind
      cases step with
      | false =>
        obtain ⟨hsolid, hhalved⟩ := hhalves hkind
        exact isParted_wrap hys (fun _ => hhalved) fun _ => hsolid
      | true =>
        intro t ht
        rw [wrap_eq, List.mem_append, List.mem_singleton] at ht
        rcases ht with ht | rfl
        · exact Or.inl (hys t ((List.takeWhile_sublist _).mem ht))
        · exact Or.inr ⟨none, kind, core ys, core_wrap (isExtra_of_isTypeOnly htypes) ys, rfl,
            fun c hc => hys c (mem_of_mem_core hc), (hsolid hkind).charsAll_core_ne_nil⟩

/-- **Parted patterns** read trees that are parted.

**Proof sketch.** Induction on the reading. A node is parted because its pattern reads enough; the
node of a step because the trees before it are solid, which `Reads.solid` says of the base. -/
theorem Reads.parted (hold : PartedRules solidRule rules) {left xs : List Tree} {p : Pattern R}
    {s t : List Char} (h : Reads rules left p s xs t) (step : Bool)
    (hp : p.parted solidRule step) : Meets step xs := by
  induction h generalizing step with
  | empty | done | ahead | absent | guard =>
    exact meets_of_isParted fun x hx => absurd hx List.not_mem_nil
  | token htoken =>
    exact meets_of_isParted (readToken_parted (by simpa [Pattern.parted] using hp) htoken)
  | seq hfirst _ ihFirst ihSecond =>
    rw [Pattern.parted] at hp
    split at hp
    · rename_i hsilent
      rw [hfirst.eq_nil_of_silent hsilent, List.nil_append]
      exact ihSecond step hp
    · obtain ⟨hpFirst, hpSecond⟩ := (Bool.and_eq_true _ _).mp hp
      exact meets_of_isParted
        (List.forall_mem_append.mpr ⟨ihFirst false hpFirst, ihSecond false hpSecond⟩)
  | first _ ih => exact ih step ((Bool.and_eq_true _ _).mp hp).1
  | second _ ih => exact ih step ((Bool.and_eq_true _ _).mp hp).2
  | again _ _ ihBody ihRest =>
    exact meets_of_isParted (List.forall_mem_append.mpr ⟨ihBody false hp, ihRest false hp⟩)
  | rule _ ih => exact meets_of_isParted (ih false (hold.parted _))
  | node hbody ih =>
    obtain ⟨hparts, hkind⟩ := (Bool.and_eq_true _ _).mp hp
    exact meets_wrap hkind (ih false hparts) (hbody.solid hold) (hbody.halves hold)
  | field _ ih =>
    refine meets_of_isParted fun x hx => ?_
    obtain ⟨y, hy, rfl⟩ := List.mem_map.mp hx
    have hparted := ih false hp y hy
    split
    · exact hparted
    · exact isParted_withField hparted
  | base _ ih =>
    rw [Pattern.parted, Bool.and_eq_true, Bool.and_eq_true] at hp
    exact meets_of_isParted (ih false hp.1.1)
  | grown hbefore _ ihBefore ihStep =>
    have hgrow := hp
    rw [Pattern.parted, Bool.and_eq_true, Bool.and_eq_true] at hgrow
    obtain ⟨⟨-, hsolid⟩, hstep⟩ := hgrow
    exact meets_of_isParted
      (isParted_graft (hbefore.solid hold hsolid) (ihBefore false hp) (ihStep true hstep))
  | after _ _ ih | only _ _ ih => exact ih step hp

end Pattern

/-! ## The grammar of scripts -/

/-- Whether what a rule reads has characters behind the comments and blanks before it. -/
def Rule.solid : Rule → Bool
  | terminator _ | blockEnd _ => false
  | objectType kind => !kind.isExtra
  | _ => true

namespace Form

lemma firstOf_parted {forms : List Form} {step : Bool}
    (h : ∀ p ∈ forms, p.parted Rule.solid step) : (firstOf forms).parted Rule.solid step := by
  induction forms with
  | nil => rfl
  | cons p rest ih =>
    obtain ⟨hp, hrest⟩ := List.forall_mem_cons.mp h
    cases rest with
    | nil => exact hp
    | cons q rest => exact (Bool.and_eq_true _ _).mpr ⟨hp, ih hrest⟩

/-- The steps of a row of operands, from any level on. -/
lemma binarySteps_parted (level : Nat) (scope : Rule.Scope) :
    (binarySteps level scope).parted Rule.solid true := by
  have hall : ∀ o ∈ binaryOperators,
      (Pattern.node .binary
        (.seq (firstOf (ops o.2.1 :: o.2.2.map word))
          (rule (.operand (o.1 + 1) scope)))).parted Rule.solid true := List.all_eq_true.mp rfl
  refine (Bool.and_eq_true _ _).mpr ⟨firstOf_parted (List.forall_mem_map.mpr ?_), rfl⟩
  exact fun o ho => hall o (List.mem_filter.mp ho).1

/-- A row of operands, from any level on. -/
lemma operand_parted (level : Nat) (scope : Rule.Scope) :
    (operand level scope).parted Rule.solid false := by
  have hgoes : (goesOn scope.ending).silent := by
    cases scope.ending <;> rfl
  have hnext : (expressionStep scope (binarySteps level scope)).parted Rule.solid true := by
    unfold expressionStep
    rw [Pattern.parted, if_pos hgoes]
    exact binarySteps_parted level scope
  exact (Bool.and_eq_true _ _).mpr ⟨rfl, hnext⟩

/-- An object type, whatever kind of node it is to be. -/
lemma objectType_parted (kind : Kind) :
    (Rule.solid (.objectType kind) → (objectType kind).solid Rule.solid) ∧
      (objectType kind).parted Rule.solid false := by
  -- what stands in the node does not depend on its kind
  obtain ⟨body, hbody, hsolid, hparted, hhalves⟩ : ∃ body : Form,
      (∀ k, objectType k = .node k body) ∧ body.solid Rule.solid ∧
        body.parted Rule.solid false ∧ body.halves Rule.solid :=
    ⟨_, fun _ => rfl, rfl, rfl, rfl⟩
  rw [hbody]
  refine ⟨fun hkind => (Bool.and_eq_true _ _).mpr ⟨hkind, hsolid⟩, ?_⟩
  rw [Pattern.parted, hparted, hsolid, hhalves, ite_self, Bool.or_true]
  rfl

end Form

/-- **The grammar is parted** in both dialects. -/
theorem grammar_parted (dialect : Dialect) : PartedRules Rule.solid (grammar dialect) := by
  have hall : ∀ r, (Rule.solid r → (grammar dialect r).solid Rule.solid) ∧
      (grammar dialect r).parted Rule.solid false := by
    refine Rule.forall_of_others (fun level scope => ?_) (fun kind => ?_) ?_
    · exact ⟨fun _ => rfl, Form.operand_parted level scope⟩
    · exact Form.objectType_parted kind
    · cases dialect <;> decide +kernel
  exact ⟨fun r => (hall r).1, fun r => (hall r).2⟩

end ThemeOverride.Script
