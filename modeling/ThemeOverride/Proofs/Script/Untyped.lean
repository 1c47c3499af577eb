import ThemeOverride.Proofs.Script.TemplateReading
import ThemeOverride.Script.Assertion

/-!
# Scripts without types

Which parts of a script are there for its types alone: annotations, type parameters and arguments,
assertions, declarations of interfaces, of names for types and of enumerations, and imports and
exports of types.

## Main definitions

* `ThemeOverride.Script.Kind.isTypeSyntax` — the kinds of parts that are there for types alone.
* `ThemeOverride.Script.Tree.isUntyped` — a tree has no such part.
* `ThemeOverride.Script.Tree.isPlainlyUntyped` — neither has any tree made from a template.

## Main results

* `ThemeOverride.Script.Tree.isUntyped_fill` — trees made from a template without types.
-/

namespace ThemeOverride.Script

/-- Whether nodes of this kind are there for types alone. -/
def Kind.isTypeSyntax : Kind → Bool
  | .ascription | .typeParameters | .interfaceDeclaration | .typeAliasDeclaration
  | .enumDeclaration => true
  | k => k.isAssertion || k == .typeArguments

/-- Whether a keyword can say of nodes of this kind that they import or export types. -/
def Kind.mayNameTypes : Kind → Bool
  | .importStatement | .exportStatement | .importSpecifier | .exportSpecifier => true
  | _ => false

namespace Tree

/-- Whether a tree is itself there for types alone. -/
def isTypeSyntax (t : Tree) : Bool :=
  t.kind.isTypeSyntax || (t.kind.mayNameTypes && (t.hasKeyword "type" || t.hasKeyword "typeof"))

mutual

/-- Whether a tree has no part that is there for types alone. -/
def isUntyped : Tree → Bool
  | leaf f k g s => !(leaf f k g s).isTypeSyntax
  | node f k cs => !(node f k cs).isTypeSyntax && allUntyped cs

/-- Whether some trees have no part that is there for types alone. -/
def allUntyped : List Tree → Bool
  | [] => true
  | t :: ts => t.isUntyped && allUntyped ts

end

lemma allUntyped_iff {ts : List Tree} : allUntyped ts ↔ ∀ t ∈ ts, t.isUntyped := by
  induction ts with
  | nil => simp [allUntyped]
  | cons t ts ih =>
    rw [allUntyped, Bool.and_eq_true, ih, List.forall_mem_cons]

lemma isUntyped_node_iff {f : Option Field} {k : Kind} {cs : List Tree} :
    (node f k cs).isUntyped ↔ (node f k cs).isTypeSyntax = false ∧ ∀ t ∈ cs, t.isUntyped := by
  rw [isUntyped, Bool.and_eq_true, Bool.not_eq_true', allUntyped_iff]

/-! ## Trees made from templates -/

mutual

/-- Whether no tree made from a template has a part that is there for types alone. -/
def isPlainlyUntyped : Tree → Bool
  | leaf f k g s => !(leaf f k g s).isTypeSyntax
  | node f k cs =>
    !(node f k cs).isTypeSyntax && (!k.mayNameTypes || (node f k cs).hasPlainTokens) &&
      allPlainlyUntyped cs

/-- Whether no trees made from some templates have a part that is there for types alone. -/
def allPlainlyUntyped : List Tree → Bool
  | [] => true
  | t :: ts => t.isPlainlyUntyped && allPlainlyUntyped ts

end

variable (F : Filling)

mutual

/-- A tree made from a template without types has none. -/
lemma isUntyped_fill : ∀ {t : Tree}, t.isPlainlyUntyped → (t.fill F).isUntyped
  | .leaf f k g s, h => by
    rw [isPlainlyUntyped] at h
    rw [fill_leaf, isUntyped]
    exact h
  | .node f k cs, h => by
    rw [isPlainlyUntyped, Bool.and_eq_true, Bool.and_eq_true, Bool.not_eq_true'] at h
    obtain ⟨⟨htype, htokens⟩, hparts⟩ := h
    rw [fill_node, ← fillAll_eq_map, isUntyped, Bool.and_eq_true, Bool.not_eq_true']
    refine ⟨?_, allUntyped_fill hparts⟩
    rw [fillAll_eq_map, ← fill_node]
    unfold isTypeSyntax at htype ⊢
    rw [kind_fill]
    cases hmay : k.mayNameTypes with
    | false =>
      have hkind : (node f k cs).kind.mayNameTypes = false := hmay
      rw [hkind] at htype ⊢
      exact htype
    | true =>
      rw [hmay, Bool.not_true, Bool.false_or] at htokens
      rw [hasKeyword_fill F htokens, hasKeyword_fill F htokens]
      exact htype

/-- Trees made from templates without types have none. -/
lemma allUntyped_fill : ∀ {ts : List Tree}, allPlainlyUntyped ts → allUntyped (fillAll F ts)
  | [], _ => by simp [fillAll, allUntyped]
  | t :: ts, h => by
    rw [allPlainlyUntyped, Bool.and_eq_true] at h
    rw [fillAll, allUntyped, Bool.and_eq_true]
    exact ⟨isUntyped_fill h.1, allUntyped_fill h.2⟩

end

end Tree

end ThemeOverride.Script
