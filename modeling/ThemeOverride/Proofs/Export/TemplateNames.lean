import ThemeOverride.Proofs.Export.Statements
import ThemeOverride.Proofs.Script.Untyped

/-!
# The exports of templates

A statement that is made from a template exports what is made from the names that the template
exports.

## Main definitions

* `ThemeOverride.Analysis.namesPlainly` — a declaration takes no value apart.
* `ThemeOverride.Analysis.Tells` — some statements export the given names, but nothing by default.
* `ThemeOverride.Analysis.tellsPlainly` — so do all statements made from a template.

## Main results

* `ThemeOverride.Analysis.declaredNames_fill` — the names that a declaration made from a template binds.
* `ThemeOverride.Analysis.isDefaultExport_fill` — it is the default export where its template is.
* `ThemeOverride.Analysis.tells_fill` — what statements made from templates export.
-/

namespace ThemeOverride

open Script

namespace Analysis

/-- A declaration takes no value apart. -/
def namesPlainly (declaration : Tree) : Bool :=
  (declaration.namedChildren.filter (·.kind == .variableDeclarator)).all fun v =>
    ((v.child? .name).map (·.kind == .identifier)).getD true

variable (F : Filling)

mutual

lemma valueKind_fill : ∀ t : Tree, valueKind (t.fill F) = valueKind t
  | .leaf f k gap text => by simp [valueKind]
  | .node f k cs => by
    rw [Tree.fill, valueKind, valueKind, lastValueKind_fill .value cs, firstValueKind_fill cs]

lemma firstValueKind_fill : ∀ ts : List Tree,
    firstValueKind (Tree.fillAll F ts) = firstValueKind ts
  | [] => by simp [Tree.fillAll]
  | t :: ts => by
    rw [Tree.fillAll, firstValueKind, firstValueKind, Tree.kind_fill, valueKind_fill t,
      firstValueKind_fill ts]

lemma lastValueKind_fill : ∀ (found : ExportKind) (ts : List Tree),
    lastValueKind found (Tree.fillAll F ts) = lastValueKind found ts
  | _, [] => by simp [Tree.fillAll]
  | found, t :: ts => by
    rw [Tree.fillAll, lastValueKind, lastValueKind, Tree.kind_fill, valueKind_fill t,
      lastValueKind_fill _ ts]

end

/-- A name made from the name of a template. -/
def madeName (name : String × ExportKind) : String × ExportKind :=
  (String.ofList (F.expand name.1.toList), name.2)

lemma declaratorNames_fill {v : Tree}
    (h : ((v.child? .name).map (·.kind == .identifier)).getD true) :
    declaratorNames (v.fill F) = (declaratorNames v).map (madeName F) := by
  unfold declaratorNames
  rw [Tree.child?_fill, Tree.child?_fill]
  cases hname : v.child? .name with
  | none => rfl
  | some name =>
    rw [hname, Option.map_some, Option.getD_some] at h
    simp only [Option.map_some, Tree.kind_fill, h, if_true, List.map_cons, List.map_nil, madeName,
      Tree.toText, Tree.text_fill, String.toList_ofList, Option.map_map]
    cases v.child? .value with
    | none => rfl
    | some value => simp [valueKind_fill]

/-- The names that a declaration made from a template binds are made from those of its template. -/
lemma declaredNames_fill {d : Tree} (h : namesPlainly d) :
    declaredNames (d.fill F) = (declaredNames d).map (madeName F) := by
  unfold declaredNames
  rw [Tree.kind_fill, Tree.child?_fill]
  cases declarationKind? d.kind with
  | some kind =>
    cases d.child? .name with
    | none => rfl
    | some name => simp [madeName, Tree.toText, Tree.text_fill]
  | none =>
    dsimp only
    split
    · rw [Tree.namedChildren_fill, List.filter_map, List.flatMap_map, List.map_flatMap]
      have hkinds : (fun t : Tree => t.kind == .variableDeclarator) ∘ Tree.fill F =
          fun t => t.kind == .variableDeclarator := by
        funext t
        rw [Function.comp_apply, Tree.kind_fill]
      rw [hkinds]
      exact List.flatMap_congr fun v hv => declaratorNames_fill F (List.all_eq_true.mp h v hv)
    · rfl

/-- A statement made from a template is the default export where its template is. -/
lemma isDefaultExport_fill {t : Tree} (h : t.hasPlainTokens) :
    isDefaultExport (t.fill F) = isDefaultExport t := by
  unfold isDefaultExport
  rw [Tree.kind_fill, Tree.hasKeyword_fill F h]

/-- Whether a statement exports a declaration that takes no value apart and binds the given
names. -/
def exportsPlainly (names : List (String × ExportKind)) (t : Tree) : Bool :=
  t.kind == .exportStatement && t.hasPlainTokens && !isDefaultExport t &&
    match t.child? .declaration with
    | some d => namesPlainly d && declaredNames d == names
    | none => false

/-- A statement made from a template that exports a declaration exports the names made from it. -/
lemma exportedNames_fill {names : List (String × ExportKind)} {t : Tree}
    (h : exportsPlainly names t) (kinds : List (String × ExportKind)) :
    exportedNames kinds (t.fill F) = names.map (madeName F) := by
  unfold exportsPlainly at h
  simp only [Bool.and_eq_true, Bool.not_eq_true'] at h
  obtain ⟨⟨⟨hkind, htokens⟩, hdefault⟩, hdeclared⟩ := h
  unfold exportedNames
  rw [Tree.kind_fill, isDefaultExport_fill F htokens, hdefault, bne, hkind, Tree.child?_fill]
  split at hdeclared
  · rename_i d hd
    obtain ⟨hplain, hnames⟩ := (Bool.and_eq_true _ _).mp hdeclared
    rw [hd]
    simp only [Bool.not_true, Bool.or_false, Bool.false_eq_true, if_false, Option.map_some]
    rw [declaredNames_fill F hplain, beq_iff_eq.mp hnames]
  · cases hdeclared

/-! ## What statements tell -/

/-- Some statements export the given names with their kinds, whatever else the script declares.
None of them is a default export, and they have no types unless there may be some. -/
structure Tells (typed : Bool) (names : List (String × ExportKind)) (trees : List Tree) : Prop where
  exports : ∀ kinds, trees.flatMap (exportedNames kinds) = names
  named : ∀ t ∈ trees, isDefaultExport t = false
  untyped : typed = false → ∀ t ∈ trees, t.isUntyped

namespace Tells

variable {typed : Bool} {names more : List (String × ExportKind)} {xs ys : List Tree}

lemma nil : Tells typed [] [] := ⟨fun _ => rfl, by simp, by simp⟩

/-- What has no types has none where there may be some. -/
lemma mono {typed' : Bool} (h : Tells typed names xs) (htyped : typed = true → typed' = true) :
    Tells typed' names xs :=
  { h with untyped := fun h' => h.untyped (by cases typed <;> simp_all) }

lemma append (h : Tells typed names xs) (h' : Tells typed more ys) :
    Tells typed (names ++ more) (xs ++ ys) where
  exports kinds := by rw [List.flatMap_append, h.exports, h'.exports]
  named := List.forall_mem_append.mpr ⟨h.named, h'.named⟩
  untyped htyped := List.forall_mem_append.mpr ⟨h.untyped htyped, h'.untyped htyped⟩

/-- An import exports nothing. -/
lemma of_import {t : Tree} (hkind : t.kind = .importStatement) (h : typed = false → t.isUntyped) :
    Tells typed [] [t] where
  exports kinds := by simp [exportedNames, hkind]
  named := by simp [isDefaultExport, hkind]
  untyped htyped := by simpa using h htyped

end Tells

/-- Whether statements made from a template are one statement, which exports the names made from
the given ones and has no types unless there may be some. -/
def tellsPlainly (typed : Bool) (names : List (String × ExportKind)) : List Tree → Bool
  | [t] =>
    (typed || t.isPlainlyUntyped) &&
      if t.kind == .importStatement then names.isEmpty else exportsPlainly names t
  | _ => false

/-- **What statements made from templates tell.** -/
theorem tells_fill {typed : Bool} {names : List (String × ExportKind)} {trees : List Tree}
    (h : tellsPlainly typed names trees) :
    Tells typed (names.map (madeName F)) (trees.map (Tree.fill F)) := by
  unfold tellsPlainly at h
  split at h
  · rename_i t
    obtain ⟨htypes, hnames⟩ := (Bool.and_eq_true _ _).mp h
    have huntyped : typed = false → (t.fill F).isUntyped := by
      intro htyped
      rw [htyped, Bool.false_or] at htypes
      exact Tree.isUntyped_fill F htypes
    rw [List.map_cons, List.map_nil]
    split at hnames
    · rename_i hkind
      rw [List.isEmpty_iff.mp hnames]
      exact .of_import ((t.kind_fill F).trans (beq_iff_eq.mp hkind)) huntyped
    · have hexports := hnames
      unfold exportsPlainly at hexports
      simp only [Bool.and_eq_true, Bool.not_eq_true'] at hexports
      obtain ⟨⟨⟨-, htokens⟩, hdefault⟩, -⟩ := hexports
      refine ⟨fun kinds => ?_, ?_, ?_⟩
      · rw [List.flatMap_singleton, exportedNames_fill F hnames]
      · simpa using (isDefaultExport_fill F htokens).trans hdefault
      · simpa using huntyped
  · cases h

end Analysis

end ThemeOverride
