import Mathlib.Data.List.Infix
import ThemeOverride.Proofs.Override.Pieces

/-!
# Imports of styles

The statements at the beginning of an override import what is copied, then names from the source,
and at the end styles. Whether the styles beside the override are imported, and those of the source
before them, depends on the answer about the styles alone.

## Main definitions

* `ThemeOverride.styleImport` — the import of the styles of a resource.
* `ThemeOverride.OverridePlan.ImportsStyles` — which styles an override imports.

## Main results

* `ThemeOverride.OverridePlan.importsStyles_text` — an override that extends an export imports the
  styles that are asked for.

## Design

Imports are compared as statements, each with the text it has in the override. The last of them
tells whether there are styles: the statement before those for styles has braces and theirs have
none.
-/

namespace ThemeOverride

/-- The import of the styles of a resource, from a directory. -/
def styleImport (directory resourceName : String) : String :=
  "import '" ++ directory ++ "/" ++ resourceName ++ ".style';"

namespace OverridePlan

variable (plan : OverridePlan)

/-- The import of the styles beside the override. -/
def ownStyle : String := styleImport "." plan.resourceName

/-- The import of the styles of the source. -/
def sourceStyle : String := styleImport plan.sourceDirectory plan.resourceName

/-- **Which styles an override imports**, by its text and the statements at the beginning of it. The
copied imports and one of names from the source come first. The statement for the styles beside the
override is the last if the source file carries styles and these are extended or replaced, and not
otherwise; the one for the styles of the source stands directly before it if they are extended, and
not otherwise. -/
structure ImportsStyles (text : String) (statements : List String) : Prop where
  begins : ∃ sections, text = Text.join "\n\n" (Text.join "\n" statements :: sections) ++ "\n"
  named : ∃ names styles, names ≠ [] ∧ styles ⊆ [plan.sourceStyle, plan.ownStyle] ∧
    statements = plan.copiedImports ++ braced "import" names plan.sourcePath :: styles
  own_iff : [plan.ownStyle] <:+ statements ↔
    plan.resourceType.carriesStyles plan.fileName = true ∧
      (plan.style = some .extend ∨ plan.style = some .override)
  source_iff : [plan.sourceStyle, plan.ownStyle] <:+ statements ↔
    plan.resourceType.carriesStyles plan.fileName = true ∧ plan.style = some .extend

variable {plan}

/-- An import of styles has no braces. -/
lemma braced_ne_styleImport (names : List String) (path directory resourceName : String) :
    braced "import" names path ≠ styleImport directory resourceName := by
  intro h
  have hstart := congrArg (fun s => s.toList.take 8) h
  have hstyle : (styleImport directory resourceName).toList.take 8 = "import '".toList := by
    simp [styleImport]
  have hbraced : (braced "import" names path).toList.take 8 = "import \x7b".toList := by
    unfold braced
    split
    · simp
    · simp
  rw [hstyle, hbraced] at hstart
  exact absurd hstart (by decide)

section Suffixes

variable {xs : List String} {x y a b : String}

lemma singleton_suffix_iff : [x] <:+ xs ++ [a] ↔ x = a := by
  constructor
  · rintro ⟨ys, h⟩
    exact List.singleton_inj.mp (List.append_inj' h rfl).2
  · rintro rfl
    exact List.suffix_append _ _

lemma pair_suffix_iff : [x, y] <:+ xs ++ [a, b] ↔ x = a ∧ y = b := by
  constructor
  · rintro ⟨ys, h⟩
    simpa using (List.append_inj' h rfl).2
  · rintro ⟨rfl, rfl⟩
    exact List.suffix_append _ _

end Suffixes

lemma styleImports_eq :
    plan.styleImports =
      if plan.resourceType.carriesStyles plan.fileName then
        match plan.style with
        | some .extend => [plan.sourceStyle, plan.ownStyle]
        | some .override => [plan.ownStyle]
        | some .keep | none => []
      else [] := by
  unfold styleImports
  cases plan.resourceType.carriesStyles plan.fileName with
  | false => rfl
  | true => rfl

/-- Behind an import of names, the imports of styles are told by the last of all imports. -/
lemma suffix_styleImports_iff {before : List String} {names : List String} {path : String} :
    ([plan.ownStyle] <:+ before ++ braced "import" names path :: plan.styleImports ↔
      plan.resourceType.carriesStyles plan.fileName = true ∧
        (plan.style = some .extend ∨ plan.style = some .override)) ∧
    ([plan.sourceStyle, plan.ownStyle] <:+
        before ++ braced "import" names path :: plan.styleImports ↔
      plan.resourceType.carriesStyles plan.fileName = true ∧ plan.style = some .extend) := by
  have hown : plan.ownStyle ≠ braced "import" names path := (braced_ne_styleImport _ _ _ _).symm
  have hsource : plan.sourceStyle ≠ braced "import" names path :=
    (braced_ne_styleImport _ _ _ _).symm
  -- a pair at the end has its second at the end
  have hlast : ∀ {statements : List String}, [plan.sourceStyle, plan.ownStyle] <:+ statements →
      [plan.ownStyle] <:+ statements := fun h => (List.suffix_cons _ _).trans h
  have hnone : ¬ [plan.ownStyle] <:+ before ++ [braced "import" names path] := by
    rw [singleton_suffix_iff]
    exact hown
  rw [styleImports_eq]
  cases hcarries : plan.resourceType.carriesStyles plan.fileName with
  | false =>
    refine ⟨iff_of_false hnone (by simp), iff_of_false (fun h => hnone (hlast h)) (by simp)⟩
  | true =>
    cases hstyle : plan.style with
    | none =>
      exact ⟨iff_of_false hnone (by simp), iff_of_false (fun h => hnone (hlast h)) (by simp)⟩
    | some option =>
      cases option with
      | keep =>
        exact ⟨iff_of_false hnone (by simp), iff_of_false (fun h => hnone (hlast h)) (by simp)⟩
      | extend =>
        have hpair : [plan.sourceStyle, plan.ownStyle] <:+
            before ++ [braced "import" names path, plan.sourceStyle, plan.ownStyle] :=
          ⟨before ++ [braced "import" names path], by simp⟩
        exact ⟨iff_of_true (hlast hpair) (by simp), iff_of_true hpair (by simp)⟩
      | override =>
        refine ⟨iff_of_true ⟨before ++ [braced "import" names path], by simp⟩ (by simp),
          iff_of_false (fun h => hsource ?_) (by simp)⟩
        exact (pair_suffix_iff.mp h).1

/-- An override that extends an export imports it from the source. -/
lemma exists_imports_eq (h : ∃ r ∈ plan.allExports, plan.Chosen r.name) :
    ∃ names, names ≠ [] ∧ plan.imports =
      plan.copiedImports ++ braced "import" names plan.sourcePath :: plan.styleImports := by
  obtain ⟨r, hr, hchosen⟩ := h
  have hlisted : plan.listed ≠ [] :=
    List.ne_nil_of_mem (plan.mem_listed.mpr ⟨r, hr, .inl ⟨hchosen, rfl⟩⟩)
  refine ⟨plan.listed.map Specifier.text, by simpa using hlisted, ?_⟩
  rw [imports_eq, importLines, sourceImport, List.isEmpty_eq_false_iff.mpr hlisted]
  simp

/-- **An override that extends an export imports the styles that are asked for**, and begins with
its imports. -/
theorem importsStyles_text (h : ∃ r ∈ plan.allExports, plan.Chosen r.name) :
    plan.ImportsStyles plan.text plan.imports := by
  obtain ⟨names, hnames, himports⟩ := exists_imports_eq h
  have hne : Text.join "\n" plan.imports ≠ "" := by
    have hline : braced "import" names plan.sourcePath ∈ plan.imports := by simp [himports]
    exact Text.join_ne_empty hline (braced_ne_empty (by simp) _ _)
  refine
    { begins := ?_
      named := ⟨names, plan.styleImports, hnames, ?_, himports⟩
      own_iff := himports ▸ suffix_styleImports_iff.1
      source_iff := himports ▸ suffix_styleImports_iff.2 }
  · obtain ⟨rest, hrest⟩ : ∃ rest, plan.pieces = .imports plan.imports :: rest := by
      unfold pieces importPieces
      rw [if_neg hne]
      simp only [List.append_assoc, List.singleton_append]
      exact ⟨_, rfl⟩
    exact ⟨rest.map plan.pieceText, by rw [text_eq_join_pieces, hrest]; rfl⟩
  · rw [styleImports_eq]
    split
    · split <;> simp
    · simp

end OverridePlan

end ThemeOverride
