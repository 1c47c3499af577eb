import ThemeOverride.Proofs.Override.Reading

/-!
# The exports of an override

An override is a script again, which can be overridden itself. Where it is written with plain
words, the analysis of its text finds the exports of its source: the same names, and a default
export where the source has one.

## Main definitions

* `ThemeOverride.OverridePlan.IsRecorded` — an override is made from the records of an analysis.

## Main results

* `ThemeOverride.OverridePlan.mem_names_told` — the pieces of an override export the names of its
  source.
* `ThemeOverride.Job.analyze_override` — the analysis of an override finds those of its source.
* `ThemeOverride.Job.analyze_override_quotedName` — it does not where a name has to be quoted.
-/

namespace ThemeOverride

open Script Analysis

/-! ## Records of an analysis -/

namespace Analysis

/-- There is a record of a default export where a statement is one. -/
lemma isSome_defaultExport {root : Tree} {includeTypes : Bool} :
    (analyzeTree root includeTypes).defaultExport.isSome ↔
      ∃ t ∈ root.namedChildren, isDefaultExport t := by
  have hstatement := congrArg Option.isSome (analyzeTree_defaultExport root includeTypes)
  rw [Option.isSome_map, Option.isSome_map] at hstatement
  rw [hstatement]
  unfold defaultStatement?
  rw [List.getLast?_isSome, ne_eq, List.filter_eq_nil_iff]
  simp only [Bool.not_eq_true, not_forall, Bool.not_eq_false, exists_prop]

end Analysis

/-! ## Names that the pieces export -/

/-- A scaffold exports one name, perhaps as a value and as a type. -/
lemma mem_scaffoldNames {kind : ExportKind} {isTypescript : Bool} {name exported : String}
    (h : isTypescript ∨ ¬ kind.isTypeOnly) :
    (∃ k, (name, k) ∈ scaffoldNames kind isTypescript exported ∧
      (isTypescript ∨ ¬ k.isTypeOnly)) ↔ name = exported := by
  cases kind <;> cases isTypescript <;>
    simp [scaffoldNames, ExportKind.isTypeOnly, exists_or] at h ⊢

namespace OverridePlan

variable (plan : OverridePlan)

/-- An override is made from the records of an analysis: no name is recorded twice, and nothing
that exists for types alone where the override has no types. -/
structure IsRecorded : Prop where
  nodup : (plan.allExports.map (·.name)).Nodup
  types : ∀ r ∈ plan.allExports, plan.isTypescript ∨ ¬ r.kind.isTypeOnly

lemma mem_exportPieces {p : Piece} :
    p ∈ plan.exportPieces ↔ p ∈ clauses false plan.valuePassthrough ∨
      p ∈ clauses true plan.typePassthrough ∨ ∃ r ∈ plan.extended, p = .scaffold r := by
  unfold exportPieces
  simp only [List.mem_append, List.mem_map, or_assoc, eq_comm (a := p)]

variable {plan} (h : plan.IsRecorded)

include h

/-- A piece tells the names that it exports. -/
lemma mem_told_piece {p : Piece} (hp : p ∈ plan.exportPieces) {name : String} :
    (∃ kind, (name, kind) ∈ p.told plan.isTypescript ∧
      (plan.isTypescript ∨ ¬ kind.isTypeOnly)) ↔ name ∈ p.exports := by
  rcases plan.mem_exportPieces.mp hp with hp | hp | ⟨r, hr, rfl⟩
  · obtain ⟨-, rfl⟩ := mem_clauses.mp hp
    simp [Piece.told, Piece.exports, ExportKind.isTypeOnly]
  · obtain ⟨hne, rfl⟩ := mem_clauses.mp hp
    have htypes : plan.isTypescript := by
      obtain ⟨n, hn⟩ := List.exists_mem_of_ne_nil _ hne
      obtain ⟨r, hr, -⟩ := List.mem_map.mp hn
      exact ((Bool.and_eq_true _ _).mp (List.mem_filter.mp hr).2).1
    simp [Piece.told, Piece.exports, htypes]
  · exact (mem_scaffoldNames (h.types r (plan.mem_extended.mp hr).1)).trans
      List.mem_singleton.symm

/-- The pieces that export names export those of the source. -/
lemma exports_exportPieces :
    (plan.exportPieces.flatMap Piece.exports).Perm (plan.allExports.map (·.name)) := by
  have hothers : plan.importPieces.flatMap Piece.exports = [] ∧
      plan.defaultPieces.flatMap Piece.exports = [] := by
    constructor
    · refine List.flatMap_eq_nil_iff.mpr fun p hp => ?_
      rw [(plan.mem_importPieces.mp hp).2]
      rfl
    · refine List.flatMap_eq_nil_iff.mpr fun p hp => ?_
      obtain ⟨code, -, -, rfl⟩ := plan.mem_defaultPieces.mp hp
      rfl
  have hpieces := plan.exports_pieces_perm h.nodup
  rw [pieces_eq, List.flatMap_append, List.flatMap_append, hothers.1, hothers.2, List.nil_append,
    List.append_nil] at hpieces
  exact hpieces

/-- **The pieces of an override export the names of its source.** -/
lemma mem_names_told {name : String} :
    (∃ kind, (name, kind) ∈ plan.told ∧ (plan.isTypescript ∨ ¬ kind.isTypeOnly)) ↔
      name ∈ plan.allExports.map (·.name) := by
  rw [← (exports_exportPieces h).mem_iff, List.mem_flatMap]
  unfold told
  constructor
  · rintro ⟨kind, hname, hkind⟩
    obtain ⟨p, hp, hname⟩ := List.mem_flatMap.mp hname
    exact ⟨p, hp, (mem_told_piece h hp).mp ⟨kind, hname, hkind⟩⟩
  · rintro ⟨p, hp, hname⟩
    obtain ⟨kind, hname, hkind⟩ := (mem_told_piece h hp).mpr hname
    exact ⟨kind, List.mem_flatMap.mpr ⟨p, hp, hname⟩, hkind⟩

lemma exportPieces_ne_nil (hne : plan.allExports ≠ []) : plan.exportPieces ≠ [] := by
  intro hnone
  have hexports := exports_exportPieces h
  rw [hnone, List.flatMap_nil, List.nil_perm, List.map_eq_nil_iff] at hexports
  exact hne hexports

end OverridePlan

/-! ## The analysis of an override -/

namespace OverridePlan

variable {plan : OverridePlan} {typed : Bool} {text : String}

/-- Behind the default export of an override nothing else is exported, and it is there where the
source has one. -/
lemma namedChildren_block (h : plan.IsPlain typed) :
    (∀ t ∈ plan.block.namedChildren, ∀ kinds, exportedNames kinds t = []) ∧
      ((∃ t ∈ plan.block.namedChildren, isDefaultExport t) ↔ plan.defaultCode.isSome) := by
  unfold block lastLines
  cases hcode : plan.defaultCode with
  | none =>
    have hblank : ∀ dialect, (parse dialect ['\n']).namedChildren = [] := by
      intro dialect
      cases dialect <;> rfl
    simp [hblank]
  | some code =>
    have hblock := h.default code hcode
    refine ⟨fun t ht kinds => ?_, iff_of_true hblock.default rfl⟩
    rw [List.eq_nil_iff_forall_not_mem]
    intro name hname
    obtain ⟨hkind, hdefault⟩ := of_mem_exportedNames hname
    rw [hblock.exports t ht hkind] at hdefault
    cases hdefault

/-- The analysis of an override finds what its pieces export. -/
theorem analyze_text (hplain : plan.IsPlain typed) (hrecorded : plan.IsRecorded)
    (htyped : plan.writesTypes → typed) (hne : plan.allExports ≠ [])
    (hok : synthesize plan = .ok text) :
    (∀ name, name ∈ (analyzeExports text plan.outputName plan.isTypescript).names ↔
      name ∈ plan.allExports.map (·.name)) ∧
    (analyzeExports text plan.outputName plan.isTypescript).defaultExport.isSome =
      plan.defaultCode.isSome := by
  obtain ⟨trees, rest, htells, hblock, hparse⟩ :=
    plan.parse_text hplain htyped (exportPieces_ne_nil hrecorded hne) hok
  obtain ⟨hnothing, hdefault⟩ := namedChildren_block hplain
  have hroot : analyzeExports text plan.outputName plan.isTypescript =
      analyzeTree (.node none .program (trees ++ rest)) plan.isTypescript := by
    rw [← hparse]
    rfl
  have hchildren : (Script.Tree.node none .program (trees ++ rest)).namedChildren =
      trees.filter (·.kind.isNamed) ++ plan.block.namedChildren := by
    rw [hblock]
    exact List.filter_append ..
  rw [hroot]
  constructor
  · intro name
    rw [mem_names_analyzeTree, ← mem_names_told hrecorded,
      ← htells.exports (localKinds (trees.filter (·.kind.isNamed) ++ plan.block.namedChildren)),
      hchildren]
    generalize localKinds _ = kinds
    simp only [List.mem_flatMap]
    constructor
    · rintro ⟨t, ht, kind, hname, hkind⟩
      rcases List.mem_append.mp ht with ht | ht
      · exact ⟨kind, ⟨t, (List.mem_filter.mp ht).1, hname⟩, hkind⟩
      · rw [hnothing t ht kinds] at hname
        cases hname
    · rintro ⟨kind, ⟨t, ht, hname⟩, hkind⟩
      refine ⟨t, List.mem_append_left _ (List.mem_filter.mpr ⟨ht, ?_⟩), kind, hname, hkind⟩
      rw [(of_mem_exportedNames hname).1]
      rfl
  · rw [Bool.eq_iff_iff, isSome_defaultExport, hchildren, ← hdefault]
    constructor
    · rintro ⟨t, ht, hkeyword⟩
      rcases List.mem_append.mp ht with ht | ht
      · rw [htells.named t (List.mem_filter.mp ht).1] at hkeyword
        cases hkeyword
      · exact ⟨t, ht, hkeyword⟩
    · rintro ⟨t, ht, hkeyword⟩
      exact ⟨t, List.mem_append_right _ ht, hkeyword⟩

end OverridePlan

/-- There is a text of the default export where there is a record of one. -/
lemma isSome_defaultCode_readSource (code fileName : String) (isTypescript : Bool) :
    (readSource code fileName isTypescript).defaultCode.isSome =
      (analyzeExports code fileName isTypescript).defaultExport.isSome := by
  have horiginal : ((analyzeExports code fileName isTypescript).defaultCode? code).isSome =
      (analyzeExports code fileName isTypescript).defaultExport.isSome := Option.isSome_map
  have hcode : (readSource code fileName isTypescript).defaultCode =
      ((if isTypescript then none else
        (((analyzeExports code fileName isTypescript).defaultCode? code).filter (· != "")).map
          fun s => stripAssertions (Dialect.ofFileName fileName) s.toList).map String.ofList).or
        ((analyzeExports code fileName isTypescript).defaultCode? code) := rfl
  rw [← horiginal, hcode, Option.isSome_or]
  cases (analyzeExports code fileName isTypescript).defaultCode? code with
  | none => cases isTypescript <;> rfl
  | some text => simp

namespace Job

variable (job : Job) {fileName code text : String} {chosen : List ExportRecord}
  {style : Option StyleOption}

/-- The override of a source file is made from the records of its analysis. -/
lemma isRecorded_planOf : (job.planOf fileName code chosen style).IsRecorded where
  nodup := by
    rw [planOf_allExports]
    exact names_analyzeTree_nodup _ _
  types := by
    rw [planOf_allExports, planOf_isTypescript]
    exact fun r hr => isTypeOnly_of_mem_named hr

/-- **The analysis of an override** finds the exports of its source: the same names, and a default
export where the source has one. -/
theorem analyze_override (h : (job.planOf fileName code chosen style).IsPlain true)
    (hne : (analyzeExports code fileName job.task.isTypescript).named ≠ [])
    (hok : synthesize (job.planOf fileName code chosen style) = .ok text) :
    let source := analyzeExports code fileName job.task.isTypescript
    let override := analyzeExports text (job.planOf fileName code chosen style).outputName
      job.task.isTypescript
    (∀ name, name ∈ override.names ↔ name ∈ source.names) ∧
      override.defaultExport.isSome = source.defaultExport.isSome := by
  have hexports : (job.planOf fileName code chosen style).allExports =
      (analyzeExports code fileName job.task.isTypescript).named := job.planOf_allExports
  obtain ⟨hnames, hdefault⟩ := OverridePlan.analyze_text h job.isRecorded_planOf (by simp)
    (by rwa [hexports]) hok
  rw [planOf_isTypescript] at hnames hdefault
  rw [hexports] at hnames
  refine ⟨hnames, hdefault.trans ?_⟩
  have hcode : (job.planOf fileName code chosen style).defaultCode =
      (readSource code fileName job.task.isTypescript).defaultCode := by
    unfold planOf plan
    rfl
  rw [hcode, isSome_defaultCode_readSource]

/-- A source file whose default export is a value that it imports. -/
def importedDefault : String :=
  "import \x7b b \x7d from 'm';\nexport const a = 1;\nexport default b;\n"

/-- The override of that file, where the named export is extended. -/
def importedDefaultOverride : String :=
  "import \x7b b \x7d from 'm';\nimport \x7b a as sourceA \x7d from 'b/src/store/X/X';\n\n" ++
    "export const a = sourceA;\n\nexport default b;\n"

/-- An override without types that copies an import and the default export of its source is written
with plain words, since both copies are read as they stand. -/
lemma isPlain_of_copies {plan : OverridePlan} {typed : Bool} (hdialect : plan.dialect = .markup)
    (hnames : ∀ r ∈ plan.allExports, isPlainName r.name) (hsource : isPath plan.sourcePath)
    (hresource : isPath plan.resourceName)
    (himports : plan.copiedImports = ["import \x7b b \x7d from 'm';"])
    (hcode : plan.defaultCode = some "export default b;") : plan.IsPlain typed where
  names := hnames
  source := hsource
  resource := hresource
  imports := by
    have himport : OverridePlan.braced "import" ([⟨"b", none⟩].map Specifier.text) "m" =
        "import \x7b b \x7d from 'm';" := by decide
    have hspecifier : (⟨"b", none⟩ : Specifier).IsPlain := ⟨by decide, by simp⟩
    rw [himports, List.forall_mem_singleton, ← himport]
    exact ⟨by decide, stands_sourceImport (by simp)
      (List.forall_mem_singleton.mpr hspecifier) (by decide)⟩
  default := by
    rw [hcode, hdialect]
    rintro code ⟨⟩
    obtain ⟨hbegins, hexports, hdefault⟩ :
        "export".toList <+: "export default b;".toList ∧
        (∀ t ∈ (defaultBlock .markup "export default b;").namedChildren,
          t.kind = .exportStatement → isDefaultExport t) ∧
        ∃ t ∈ (defaultBlock .markup "export default b;").namedChildren, isDefaultExport t := by
      decide
    exact ⟨.inl hbegins, hexports, hdefault⟩

lemma isPlain_importedDefault :
    (ofStore.planOf "X.js" importedDefault (exportA importedDefault "X.js") none).IsPlain true := by
  obtain ⟨hdialect, hnames, hsource, hresource, himports, hcode⟩ :
      let plan := ofStore.planOf "X.js" importedDefault (exportA importedDefault "X.js") none
      plan.dialect = .markup ∧ (∀ r ∈ plan.allExports, isPlainName r.name) ∧
      isPath plan.sourcePath ∧ isPath plan.resourceName ∧
      plan.copiedImports = ["import \x7b b \x7d from 'm';"] ∧
      plan.defaultCode = some "export default b;" := by decide +kernel
  exact isPlain_of_copies hdialect hnames hsource hresource himports hcode

set_option maxRecDepth 10000 in
theorem analyze_override_importedDefault :
    synthesize (ofStore.planOf "X.js" importedDefault (exportA importedDefault "X.js") none) =
      .ok importedDefaultOverride ∧
    (∀ name, name ∈ (analyzeExports importedDefaultOverride "X.js" false).names ↔
      name ∈ (analyzeExports importedDefault "X.js" false).names) ∧
    (analyzeExports importedDefaultOverride "X.js" false).defaultExport.isSome =
      (analyzeExports importedDefault "X.js" false).defaultExport.isSome := by
  have hok : synthesize (ofStore.planOf "X.js" importedDefault (exportA importedDefault "X.js")
      none) = .ok importedDefaultOverride := by
    refine synthesize_eq_ok_iff.mpr ⟨by decide +kernel, ?_⟩
    unfold importedDefaultOverride
    simp only [String.toList_append]
    rewrite [String.toList_ofList, String.toList_ofList]
    decide +kernel
  have hname : (ofStore.planOf "X.js" importedDefault (exportA importedDefault "X.js")
      none).outputName = "X.js" := by decide +kernel
  have hne : (analyzeExports importedDefault "X.js" ofStore.task.isTypescript).named ≠ [] := by
    decide +kernel
  have hfound := ofStore.analyze_override isPlain_importedDefault hne hok
  rw [hname] at hfound
  exact ⟨hok, hfound⟩

/-- A source file that exports a value under a name that has to be quoted. -/
def quotedName : String :=
  "export const a = 1;\nconst c = 2;\nexport \x7b c as 'c as d' \x7d;\n"

/-- The override of that file, where the other export is extended. -/
def quotedNameOverride : String :=
  "import \x7b a as sourceA \x7d from 'b/src/store/X/X';\n\n" ++
    "export \x7b c as d \x7d from 'b/src/store/X/X';\n\nexport const a = sourceA;\n"

set_option maxRecDepth 10000 in
/-- A name that has to be quoted is passed on without its quotes, so that the override exports
another one. -/
theorem analyze_override_quotedName :
    (sourceTree quotedName "X.js").hasError = false ∧
    (analyzeExports quotedName "X.js" false).names = ["a", "c as d"] ∧
    synthesize (ofStore.planOf "X.js" quotedName (exportA quotedName "X.js") none) =
      .ok quotedNameOverride ∧
    (analyzeExports quotedNameOverride "X.js" false).names = ["d", "a"] := by
  obtain ⟨hvalid, hsource, htext⟩ :
      (sourceTree quotedName "X.js").hasError = false ∧
      (analyzeExports quotedName "X.js" false).names = ["a", "c as d"] ∧
      (ofStore.planOf "X.js" quotedName (exportA quotedName "X.js") none).text =
        quotedNameOverride := by
    decide +kernel
  -- the characters are spelled out, as they take long to compute from a long text
  obtain ⟨herrors, hoverride⟩ :
      hasSyntaxErrors (Dialect.ofFileName "X.js") quotedNameOverride.toList = false ∧
      (analyzeTree (parse (Dialect.ofFileName "X.js") quotedNameOverride.toList) false).names =
        ["d", "a"] := by
    unfold quotedNameOverride
    simp only [String.toList_append]
    rewrite [String.toList_ofList, String.toList_ofList]
    decide +kernel
  exact ⟨hvalid, hsource, synthesize_eq_ok_iff.mpr ⟨htext, herrors⟩, hoverride⟩

end Job

end ThemeOverride
