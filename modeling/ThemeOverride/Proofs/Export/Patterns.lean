import Mathlib.Data.List.Perm.Lattice
import ThemeOverride.Export.Analysis
import ThemeOverride.Proofs.Script.Traversal

/-!
# What patterns bind

A declaration can take a value apart by patterns in patterns. Some words of a pattern are bound by
it. Others belong to the expressions in it: to values that it takes by default, to computed names
of members, or to members that it assigns to. The analysis collects all words of a pattern that
are names. Here it is told which of them are bound, by recursion on patterns.

## Main definitions

* `ThemeOverride.Analysis.Binding` — where patterns stand among the parts of a pattern.
* `ThemeOverride.Analysis.boundParts` — the words that a pattern binds, in the order of the text.
* `ThemeOverride.Analysis.strayParts` — the names in a pattern that it does not bind.
* `ThemeOverride.Analysis.boundNames`, `strayNames`, `missedNames` — the names that a declaration
  of variables binds, those in its patterns that it does not bind, and those bound by the word
  `undefined`, which is no name to the analysis.

## Main results

* `ThemeOverride.Analysis.perm_namesIn` — the names in a pattern are those bound and the strays.
* `ThemeOverride.Analysis.declaredNames_eq_boundNames_iff` — a declaration of variables is recorded
  with the names it binds exactly where it has no strays and misses none.

## Design

The parts of a pattern are read from the left, and what has been read decides whether the next
part is a pattern: up to the mark of a default value, or from the mark after the name of a member
on. `Binding` is that state, and both recursions follow it.
-/

namespace ThemeOverride

open Script

namespace Analysis

/-! ## Words that are bound -/

/-- Where patterns stand among the parts of a pattern that are still to come. -/
inductive Binding where
  | everywhere
  | upToEquals
  | pastColon
  | nowhere
  deriving DecidableEq, Repr

namespace Binding

/-- Where patterns stand among the parts of a node of a kind. -/
def ofKind : Kind → Binding
  | .objectPattern | .arrayPattern | .restPattern => everywhere
  | .assignmentPattern | .objectAssignmentPattern => upToEquals
  | .pairPattern => pastColon
  | _ => nowhere

/-- Whether the next part is a pattern, unless it is a mark. -/
def here : Binding → Bool
  | everywhere | upToEquals => true
  | pastColon | nowhere => false

/-- Where patterns stand after a part. -/
def past (part : Tree) : Binding → Binding
  | upToEquals => if part.kind == .token && part.text == ['='] then nowhere else upToEquals
  | pastColon => if part.kind == .token && part.text == [':'] then everywhere else pastColon
  | b => b

end Binding

/-- Whether the analysis takes parts of a kind in a pattern for names. -/
def isPatternName (k : Kind) : Bool := k == .identifier || k == .shorthandPattern

/-- The parts of a tree that the analysis takes for names, if the tree is a pattern. -/
def namesIn (t : Tree) : List Tree :=
  ((Placed.walk (fun _ => 0) ⟨0, t⟩).filter fun p => isPatternName p.tree.kind).map (·.tree)

mutual

/-- The words that a pattern binds, in the order of the text. -/
def boundParts : Tree → List Tree
  | .leaf f k g s =>
    if isPatternName k || k == .undefinedLiteral then [.leaf f k g s] else []
  | .node _ k cs => boundPartsOf (.ofKind k) cs

/-- The words that some parts of a pattern bind. -/
def boundPartsOf (binding : Binding) : List Tree → List Tree
  | [] => []
  | t :: ts =>
    (if binding.here then boundParts t else []) ++ boundPartsOf (binding.past t) ts

end

mutual

/-- The names in a pattern that it does not bind. -/
def strayParts : Tree → List Tree
  | .leaf .. => []
  | .node f k cs =>
    -- a node is never bound itself: what is bound is a single word
    (if isPatternName k then [.node f k cs] else []) ++ strayPartsOf (.ofKind k) cs

/-- The names in some parts of a pattern that it does not bind. -/
def strayPartsOf (binding : Binding) : List Tree → List Tree
  | [] => []
  | t :: ts =>
    (if binding.here then strayParts t else namesIn t) ++ strayPartsOf (binding.past t) ts

end

/-! ## Names in patterns -/

lemma namesIn_eq (t : Tree) :
    namesIn t = (if isPatternName t.kind then [t] else []) ++ t.children.flatMap namesIn := by
  have hweigh : ∀ s : List Char, weigh (fun _ => 0) s = 0 := by
    intro s
    induction s with
    | nil => rfl
    | cons c s ih => exact (Nat.zero_add _).trans ih
  have hrow : ∀ trees : List Tree,
      Placed.row (fun _ => 0) 0 trees = trees.map fun t => ⟨0, t⟩ := by
    intro trees
    induction trees with
    | nil => rfl
    | cons t ts ih => rw [Placed.row, hweigh, ih, List.map_cons]
  unfold namesIn
  rw [Placed.walk_eq_preorder, Placed.preorder_eq, List.filter_cons, Placed.children, hrow]
  simp only [Placed.walk_eq_preorder, List.flatMap_map, List.filter_flatMap]
  split <;> simp [List.map_flatMap]

lemma patternNames_eq (t : Tree) : patternNames t = (namesIn t).map Tree.toText := by
  unfold patternNames namesIn
  rw [List.map_map]
  rfl

/-- The words bound by parts of a pattern that the analysis takes for names. -/
def recordedParts (t : Tree) : List Tree := (boundParts t).filter fun p => isPatternName p.kind

/-- **The names in a pattern** are those that it binds, in their order, and the strays. -/
theorem perm_namesIn (t : Tree) :
    (recordedParts t).Sublist (namesIn t) ∧
      (namesIn t).Perm (recordedParts t ++ strayParts t) := by
  unfold recordedParts
  induction t using Tree.induction_parts with
  | leaf f k gap text =>
    rw [namesIn_eq, boundParts, strayParts]
    cases hk : isPatternName k with
    | true => simp [hk, Tree.kind, Tree.children]
    | false => cases hu : k == .undefinedLiteral <;> simp [hk, Tree.kind, Tree.children]
  | node f k cs ih =>
    have hparts : ∀ (ts : List Tree) (binding : Binding), (∀ t ∈ ts, t ∈ cs) →
        ((boundPartsOf binding ts).filter fun p => isPatternName p.kind).Sublist
          (ts.flatMap namesIn) ∧
        (ts.flatMap namesIn).Perm
          (((boundPartsOf binding ts).filter fun p => isPatternName p.kind) ++
            strayPartsOf binding ts) := by
      intro ts
      induction ts with
      | nil => simp [boundPartsOf, strayPartsOf]
      | cons t ts ihts =>
        intro binding hmem
        obtain ⟨hsub, hperm⟩ := ih t (hmem t List.mem_cons_self)
        obtain ⟨hsubs, hperms⟩ := ihts (binding.past t) fun t ht => hmem t (List.mem_cons_of_mem _ ht)
        rw [List.flatMap_cons, boundPartsOf, strayPartsOf, List.filter_append]
        cases binding.here with
        | true =>
          refine ⟨hsub.append hsubs, (hperm.append hperms).trans ?_⟩
          simp only [if_true, List.append_assoc]
          exact (List.perm_append_comm_assoc _ _ _).append_left _
        | false =>
          refine ⟨hsubs.trans (List.sublist_append_right _ _), ?_⟩
          exact (hperms.append_left _).trans (List.perm_append_comm_assoc _ _ _)
    obtain ⟨hsub, hperm⟩ := hparts cs (.ofKind k) fun t ht => ht
    rw [namesIn_eq, boundParts, strayParts]
    refine ⟨hsub.trans (List.sublist_append_right _ _), ?_⟩
    exact (hperm.append_left _).trans (List.perm_append_comm_assoc _ _ _)

/-! ## Declarations of variables -/

/-- What the variables of a declaration are bound by: names on their own, and patterns. -/
def targets (declaration : Tree) : List Tree :=
  (declaration.namedChildren.filter (·.kind == .variableDeclarator)).flatMap fun declarator =>
    (declarator.child? .name).toList

/-- The words that a name on its own or a pattern binds. -/
def targetParts (target : Tree) : List Tree :=
  if target.kind == .identifier then [target] else boundParts target

/-- The names in a target that it does not bind. -/
def targetStrays (target : Tree) : List Tree :=
  if target.kind == .identifier then [] else strayParts target

/-- The names that a declaration of variables binds, in the order of the text. -/
def boundNames (declaration : Tree) : List String :=
  ((targets declaration).flatMap targetParts).map Tree.toText

/-- The names in the patterns of a declaration that it does not bind. -/
def strayNames (declaration : Tree) : List String :=
  ((targets declaration).flatMap targetStrays).map Tree.toText

/-- The names that a declaration binds by words that are no names to the analysis. -/
def missedNames (declaration : Tree) : List String :=
  (((targets declaration).flatMap targetParts).filter fun p => !isPatternName p.kind).map
    Tree.toText

section

variable {declaration : Tree}

/-- The parts that the analysis takes for the names of a target. -/
def targetNames (target : Tree) : List Tree :=
  if target.kind == .identifier then [target] else namesIn target

lemma declaredNames_eq
    (h : declaration.kind = .lexicalDeclaration ∨ declaration.kind = .variableDeclaration) :
    (declaredNames declaration).map (·.1) =
      ((targets declaration).flatMap targetNames).map Tree.toText := by
  have hkind : declarationKind? declaration.kind = none := by
    rcases h with h | h <;> rw [h] <;> rfl
  have hvariables : (declaration.kind == .lexicalDeclaration ||
      declaration.kind == .variableDeclaration) = true := by
    rcases h with h | h <;> rw [h] <;> rfl
  unfold declaredNames targets
  rw [hkind]
  simp only [hvariables, if_true, List.map_flatMap, List.flatMap_assoc]
  refine List.flatMap_congr fun declarator _ => ?_
  unfold declaratorNames targetNames
  cases declarator.child? .name with
  | none => rfl
  | some name =>
    cases hname : name.kind == .identifier with
    | true => simp [beq_iff_eq.mp hname]
    | false =>
      simp only [hname, Bool.false_eq_true, if_false, patternNames_eq, Option.toList_some,
        List.flatMap_singleton, List.map_map]
      rfl

/-- What the analysis takes for the names of some targets are the names that they bind, in their
order, and the strays. -/
lemma perm_targetNames (ts : List Tree) :
    ((ts.flatMap targetParts).filter fun p => isPatternName p.kind).Sublist
      (ts.flatMap targetNames) ∧
    (ts.flatMap targetNames).Perm
      (((ts.flatMap targetParts).filter fun p => isPatternName p.kind) ++
        ts.flatMap targetStrays) := by
  induction ts with
  | nil => simp
  | cons t ts ih =>
    obtain ⟨hsubs, hperms⟩ := ih
    have htarget : ((targetParts t).filter fun p => isPatternName p.kind).Sublist (targetNames t) ∧
        (targetNames t).Perm
          (((targetParts t).filter fun p => isPatternName p.kind) ++ targetStrays t) := by
      unfold targetParts targetNames targetStrays
      by_cases hname : t.kind = .identifier
      · have hpattern : isPatternName t.kind = true := by rw [hname]; rfl
        have hself : ([t].filter fun p => isPatternName p.kind) = [t] := by
          refine List.filter_eq_self.mpr fun p hp => ?_
          rw [List.mem_singleton.mp hp]
          exact hpattern
        rw [if_pos (beq_iff_eq.mpr hname), if_pos (beq_iff_eq.mpr hname),
          if_pos (beq_iff_eq.mpr hname), hself]
        exact ⟨List.Sublist.refl _, List.Perm.refl _⟩
      · rw [if_neg (by simpa using hname), if_neg (by simpa using hname),
          if_neg (by simpa using hname)]
        exact perm_namesIn t
    obtain ⟨hsub, hperm⟩ := htarget
    rw [List.flatMap_cons, List.flatMap_cons, List.flatMap_cons, List.filter_append]
    refine ⟨hsub.append hsubs, (hperm.append hperms).trans ?_⟩
    rw [List.append_assoc, List.append_assoc]
    exact (List.perm_append_comm_assoc _ _ _).append_left _

/-- What a declaration of variables is recorded with, and what it misses, are the names that it
binds and the strays in its patterns. -/
lemma perm_declaredNames
    (h : declaration.kind = .lexicalDeclaration ∨ declaration.kind = .variableDeclaration) :
    ((declaredNames declaration).map (·.1) ++ missedNames declaration).Perm
      (boundNames declaration ++ strayNames declaration) := by
  obtain ⟨-, hperm⟩ := perm_targetNames (targets declaration)
  have hsplit := List.filter_append_perm (fun p : Tree => isPatternName p.kind)
    ((targets declaration).flatMap targetParts)
  rw [declaredNames_eq h]
  unfold missedNames boundNames strayNames
  rw [← List.map_append, ← List.map_append]
  refine List.Perm.map _ ((hperm.append_right _).trans ?_)
  rw [List.append_assoc]
  refine (List.perm_append_comm.append_left _).trans ?_
  rw [← List.append_assoc]
  exact hsplit.append_right _

/-- **What a declaration of variables is recorded with** are the names that it binds, less those
bound by the word `undefined`, and the strays in its patterns. Where no stray is called like a
missed name, it is recorded with exactly the names that it binds, in the order of the text, if and
only if there are no strays and none is missed.

**Proof sketch.** By recursion on the patterns, the recorded words are the bound ones, in their
order, with the strays between them. So equal lists have as many strays as missed names, of the
same names; and without strays the recorded words are the bound ones that are names. -/
theorem declaredNames_eq_boundNames_iff
    (h : declaration.kind = .lexicalDeclaration ∨ declaration.kind = .variableDeclaration) :
    ((declaredNames declaration).map (·.1) ++ missedNames declaration).Perm
      (boundNames declaration ++ strayNames declaration) ∧
    ((missedNames declaration).Disjoint (strayNames declaration) →
      ((declaredNames declaration).map (·.1) = boundNames declaration ↔
        strayNames declaration = [] ∧ missedNames declaration = [])) := by
  have hall := perm_declaredNames h
  refine ⟨hall, fun hapart => ⟨fun heq => ?_, ?_⟩⟩
  · rw [heq] at hall
    have hsame : (missedNames declaration).Perm (strayNames declaration) :=
      (List.perm_append_left_iff _).mp hall
    have hmissed : missedNames declaration = [] := by
      refine List.eq_nil_iff_forall_not_mem.mpr fun name hname => ?_
      exact hapart hname (hsame.mem_iff.mp hname)
    refine ⟨?_, hmissed⟩
    rw [hmissed] at hsame
    exact hsame.nil_eq.symm
  · rintro ⟨hstray, hmissed⟩
    obtain ⟨hsub, hperm⟩ := perm_targetNames (targets declaration)
    have hnostray : (targets declaration).flatMap targetStrays = [] := List.map_eq_nil_iff.mp hstray
    have hnames : (((targets declaration).flatMap targetParts).filter fun p =>
        isPatternName p.kind) = (targets declaration).flatMap targetParts := by
      refine List.filter_eq_self.mpr fun p hp => ?_
      have hnot := List.filter_eq_nil_iff.mp (List.map_eq_nil_iff.mp hmissed) p hp
      simpa using hnot
    rw [hnostray, List.append_nil] at hperm
    rw [declaredNames_eq h, boundNames, ← hsub.eq_of_length hperm.length_eq.symm, hnames]

end

/-- The first statement of a script, if it exports a declaration. -/
def firstExported (source : String) : Tree :=
  ((parse (Dialect.ofFileName "X.ts") source.toList).namedChildren.head?.bind
    (·.child? .declaration)).getD default

/-- Renamed members, values by default, holes, computed names, and what is left over. -/
def nestedPatterns : Tree :=
  firstExported
    "export const \x7b a, b: [c = 1, , ...d], ['e']: \x7b f \x7d, ...g \x7d = h, i = j;\n"

set_option maxRecDepth 10000 in
theorem declaredNames_eq_boundNames_nestedPatterns :
    nestedPatterns.kind = .lexicalDeclaration ∧
    (declaredNames nestedPatterns).map (·.1) = ["a", "c", "d", "f", "g", "i"] ∧
    (declaredNames nestedPatterns).map (·.1) = boundNames nestedPatterns := by
  have h : nestedPatterns.kind = .lexicalDeclaration ∧
      (declaredNames nestedPatterns).map (·.1) = ["a", "c", "d", "f", "g", "i"] ∧
      missedNames nestedPatterns = [] ∧ strayNames nestedPatterns = [] := by decide +kernel
  obtain ⟨hkind, hnames, hmissed, hstray⟩ := h
  refine ⟨hkind, hnames, ?_⟩
  have hapart : (missedNames nestedPatterns).Disjoint (strayNames nestedPatterns) := by
    rw [hmissed]
    exact List.disjoint_nil_left _
  exact ((declaredNames_eq_boundNames_iff (Or.inl hkind)).2 hapart).mpr ⟨hstray, hmissed⟩

/-- The tree of a script that exports a variable with a value by default. -/
def defaultedPattern : Tree :=
  parse (Dialect.ofFileName "X.ts") "export const \x7b a = b \x7d = c;\n".toList

set_option maxRecDepth 10000 in
/-- A name that occurs only in a value by default is recorded as if the declaration bound it. -/
theorem not_declaredNames_eq_boundNames_defaultedPattern :
    defaultedPattern.hasError = false ∧
    ∃ t ∈ defaultedPattern.namedChildren, ∃ d, t.child? .declaration = some d ∧
      d.kind = .lexicalDeclaration ∧ boundNames d = ["a"] ∧
      (declaredNames d).map (·.1) = ["a", "b"] ∧
      (analyzeTree defaultedPattern true).names = ["a", "b"] := by
  have h : defaultedPattern.hasError = false ∧
      (defaultedPattern.namedChildren.any fun t => (t.child? .declaration).any fun d =>
        d.kind == .lexicalDeclaration && boundNames d == ["a"] &&
        (declaredNames d).map (·.1) == ["a", "b"]) = true ∧
      (analyzeTree defaultedPattern true).names = ["a", "b"] := by decide +kernel
  obtain ⟨herror, hany, hnames⟩ := h
  refine ⟨herror, ?_⟩
  simp only [List.any_eq_true, Option.any_eq_true, Bool.and_eq_true, beq_iff_eq] at hany
  obtain ⟨t, ht, d, hd, ⟨hkind, hbound⟩, hdeclared⟩ := hany
  exact ⟨t, ht, d, hd, hkind, hbound, hdeclared, hnames⟩

end Analysis

end ThemeOverride
