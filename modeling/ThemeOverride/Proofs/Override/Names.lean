import Mathlib.Data.List.Nodup
import ThemeOverride.Proofs.Export.Statements
import ThemeOverride.Proofs.Override.CopiedNames
import ThemeOverride.Proofs.Override.Pieces
import ThemeOverride.Run.Extend

/-!
# The names that an override binds

The default export of a source file is put into the override as it stands, where the names it
refers to are bound by other parts: by copied imports, by the import from the source, by the
scaffolds of extended exports, and by the default export itself. The names are taken from these
parts, not read off the text of the override: the text is the row of its pieces
(`ThemeOverride.OverridePlan.text_eq_join_pieces`), and the copied imports bind what is kept of
their records (`ThemeOverride.Job.copiedImports_planOf`).

## Main definitions

* `ThemeOverride.Refers` — the default export, as it is put into an override, refers to a name.
* `ThemeOverride.OverrideNames` — the names that an override binds, by what binds them.
* `ThemeOverride.Analysis.Carries` — a statement binds or exports a name that an override can
  bind as well.

## Main results

* `ThemeOverride.Job.copiedImports_planOf` — the copied imports are recorded ones, trimmed.
* `ThemeOverride.Job.mem_overrideNames_iff` — which names of the default export are bound.
* `ThemeOverride.Job.nodup_overrideNames_iff` — when no name is bound twice.
-/

namespace ThemeOverride

open Script Analysis
open scoped List

/-! ## What the default export refers to -/

section

variable (code fileName : String) (isTypescript : Bool)

/-- The syntax tree of a source file. -/
def sourceTree : Tree := parse (Dialect.ofFileName fileName) code.toList

/-- The default export as it is put into an override: its statement, or without types the script
that is left of it without its assertions. -/
def defaultBlock? : Option Tree :=
  let dialect := Dialect.ofFileName fileName
  let exports := analyzeTree (sourceTree code fileName) isTypescript
  match if isTypescript then none else (exports.defaultCode? code).filter (· != "") with
  | some text => some (parse dialect (stripAssertions dialect text.toList))
  | none => defaultStatement? (sourceTree code fileName)

/-- The default export, as it is put into an override, refers to a name. -/
def Refers (name : String) : Prop :=
  ∃ block part, defaultBlock? code fileName isTypescript = some block ∧ Within part block ∧
    part.kind.isReference ∧ part.toText = name

lemma readSource_exports : (readSource code fileName isTypescript).exports =
    analyzeTree (sourceTree code fileName) isTypescript := rfl

lemma readSource_references : (readSource code fileName isTypescript).references =
    ((defaultBlock? code fileName isTypescript).map references).getD [] := by
  have hroot : parse (Dialect.ofFileName fileName) code.toList = sourceTree code fileName := rfl
  have hstatement := congrArg (Option.getD · [])
    (analyzeTree_defaultExport (sourceTree code fileName) isTypescript)
  unfold readSource defaultBlock?
  dsimp only
  rw [hroot]
  cases isTypescript with
  | true => exact hstatement
  | false =>
    cases ((analyzeTree (sourceTree code fileName) false).defaultCode? code).filter (· != "") with
    | none => exact hstatement
    | some text => rfl

/-- The references of a source file are the names that its default export refers to. -/
lemma refers_iff {name : String} :
    Refers code fileName isTypescript name ↔
      name ∈ (readSource code fileName isTypescript).references := by
  rw [readSource_references]
  unfold Refers
  cases defaultBlock? code fileName isTypescript with
  | none => simp
  | some block =>
    rw [Option.map_some, Option.getD_some, mem_references_iff]
    simp

instance (name : String) : Decidable (Refers code fileName isTypescript name) :=
  decidable_of_iff _ (refers_iff code fileName isTypescript).symm

end

/-! ## What an override can bind -/

namespace Analysis

/-- A statement binds or exports a name in a way that an override can take over: by an import
that names its module, or under the name of an export; what exists for types alone counts only
where the override has types. -/
def Carries (root : Tree) (isTypescript : Bool) (statement : Tree) (name : String) : Prop :=
  (isImport statement ∧ namesModule statement ∧ name ∈ statementNames statement ∧
    (statement.hasKeyword "type" → isTypescript)) ∨
  ∃ kind, (name, kind) ∈ exportedNames (localKinds root.namedChildren) statement ∧
    (isTypescript ∨ ¬ kind.isTypeOnly)

/-- The statements carry what the records hold. -/
lemma exists_carries_iff {root : Tree} {isTypescript : Bool} {name : String} :
    (∃ t ∈ root.namedChildren, Carries root isTypescript t name) ↔
      (∃ r ∈ (analyzeTree root isTypescript).imports,
        name ∈ r.bindings ∧ (r.typeOnly → isTypescript)) ∨
      name ∈ (analyzeTree root isTypescript).names := by
  rw [exists_import_iff root isTypescript name fun typeOnly => typeOnly → isTypescript,
    mem_names_analyzeTree]
  unfold Carries recordedImports
  simp only [and_or_left, exists_or, List.mem_filter, and_assoc]

end Analysis

/-! ## What an override binds -/

namespace OverridePlan

variable (plan : OverridePlan)

/-- The names under which the override imports the exports it extends. -/
def aliases : List String := plan.extended.map fun r => sourceLocalName r.name

/-- The names of the exports passed on that the default export refers to. -/
def referred : List String :=
  (plan.passthrough.filter fun r => r.name ∈ plan.references).map (·.name)

/-- The names that the import from the source binds are the other names of the extended exports,
and the own names of those referred to. -/
lemma localNames_perm :
    (plan.listed.map Specifier.localName).Perm (plan.aliases ++ plan.referred) := by
  unfold aliases referred listed
  rw [extended_eq, passthrough_eq]
  induction plan.allExports with
  | nil => exact .nil
  | cons r rest ih =>
    by_cases hc : plan.Chosen r.name
    · have hs : plan.specifierOf? r.name = some ⟨r.name, some (sourceLocalName r.name)⟩ :=
        if_pos hc
      simp only [List.filterMap_cons, hs, List.filter_cons, hc, decide_true, if_true, not_true,
        decide_false, Bool.false_eq_true, if_false, List.map_cons, List.cons_append]
      exact ih.cons _
    · by_cases href : r.name ∈ plan.references
      · have hs : plan.specifierOf? r.name = some ⟨r.name, none⟩ :=
          (if_neg hc).trans (if_pos href)
        simp only [List.filterMap_cons, hs, List.filter_cons, hc, href, decide_true, if_true,
          not_false_eq_true, decide_false, Bool.false_eq_true, if_false, List.map_cons]
        exact (ih.cons _).trans List.perm_middle.symm
      · have hs : plan.specifierOf? r.name = none := (if_neg hc).trans (if_neg href)
        simp only [List.filterMap_cons, hs, List.filter_cons, hc, href, decide_true, if_true,
          not_false_eq_true, decide_false, Bool.false_eq_true, if_false]
        exact ih

lemma mem_referred {n : String} :
    n ∈ plan.referred ↔
      n ∈ plan.allExports.map (·.name) ∧ ¬ plan.Chosen n ∧ n ∈ plan.references := by
  unfold referred
  simp only [List.mem_map, List.mem_filter, mem_passthrough, decide_eq_true_eq]
  constructor
  · rintro ⟨r, ⟨⟨hr, hc⟩, href⟩, rfl⟩
    exact ⟨⟨r, hr, rfl⟩, hc, href⟩
  · rintro ⟨⟨r, hr, rfl⟩, hc, href⟩
    exact ⟨r, ⟨⟨hr, hc⟩, href⟩, rfl⟩

lemma mem_names_extended {n : String} :
    n ∈ plan.extended.map (·.name) ↔ n ∈ plan.allExports.map (·.name) ∧ plan.Chosen n := by
  simp only [List.mem_map, mem_extended]
  constructor
  · rintro ⟨r, ⟨hr, hc⟩, rfl⟩
    exact ⟨⟨r, hr, rfl⟩, hc⟩
  · rintro ⟨⟨r, hr, rfl⟩, hc⟩
    exact ⟨r, ⟨hr, hc⟩, rfl⟩

/-- The exports passed on and those extended have different names. -/
lemma nodup_referred_extended (hnames : (plan.allExports.map (·.name)).Nodup) :
    (plan.referred ++ plan.extended.map (·.name)).Nodup := by
  have hreferred : plan.referred.Sublist (plan.allExports.map (·.name)) := by
    unfold referred
    rw [passthrough_eq]
    exact (List.filter_sublist.trans List.filter_sublist).map _
  have hextended : (plan.extended.map (·.name)).Sublist (plan.allExports.map (·.name)) := by
    rw [extended_eq]
    exact List.filter_sublist.map _
  refine List.nodup_append'.mpr ⟨hnames.sublist hreferred, hnames.sublist hextended, ?_⟩
  intro n hn hn'
  exact (plan.mem_referred.mp hn).2.1 (plan.mem_names_extended.mp hn').2

end OverridePlan

/-- The names that an override binds at its top level: by the copied imports, by the import from
the source, by the scaffolds of extended exports, and by the default export. -/
structure OverrideNames where
  copied : List String
  imported : List String
  extended : List String
  declared : List String

namespace OverrideNames

/-- All names that an override binds at its top level. -/
def all (names : OverrideNames) : List String :=
  names.copied ++ names.imported ++ names.extended ++ names.declared

/-- No name is bound twice where the aliases are different from each other and from all other
names, and the default export declares none that is also exported; the other names are different
in any case. -/
lemma nodup_all_iff {names : OverrideNames} {aliases referred : List String}
    (himported : names.imported.Perm (aliases ++ referred))
    (hsource : (names.copied ++ names.declared).Nodup)
    (hexported : (referred ++ names.extended).Nodup)
    (happart : names.copied.Disjoint (referred ++ names.extended)) :
    names.all.Nodup ↔
      aliases.Nodup ∧
      aliases.Disjoint (names.copied ++ referred ++ names.extended ++ names.declared) ∧
      names.declared.Disjoint (referred ++ names.extended) := by
  have hperm : names.all.Perm
      (aliases ++ (names.copied ++ referred ++ names.extended ++ names.declared)) := by
    calc names.copied ++ names.imported ++ names.extended ++ names.declared
      _ ~ names.copied ++ (aliases ++ referred) ++ names.extended ++ names.declared :=
        ((himported.append_left _).append_right _).append_right _
      _ = (names.copied ++ aliases) ++ (referred ++ names.extended ++ names.declared) := by
        simp only [List.append_assoc]
      _ ~ (aliases ++ names.copied) ++ (referred ++ names.extended ++ names.declared) :=
        List.perm_append_comm.append_right _
      _ = aliases ++ (names.copied ++ referred ++ names.extended ++ names.declared) := by
        simp only [List.append_assoc]
  rw [hperm.nodup_iff]
  simp only [List.nodup_append', List.disjoint_append_left, List.disjoint_append_right] at *
  have hcomm : ∀ l : List String, List.Disjoint l names.declared ↔ List.Disjoint names.declared l :=
    fun l => List.disjoint_comm
  rw [hcomm referred, hcomm names.extended]
  tauto

end OverrideNames

namespace OverridePlan

variable (plan : OverridePlan) (exports : ExportMap) (declared : List String)

/-- The names that an override binds at its top level, where the source has the given exports and
imports and its default export declares the given names. -/
def names : OverrideNames where
  copied := copiedNames exports plan.references plan.isTypescript
  imported := plan.listed.map Specifier.localName
  extended := plan.extended.map (·.name)
  declared := declared

variable {exports} (hplan : plan.allExports = exports.named)

include hplan

/-- The override binds a name that the default export refers to where the source exports it or
imports it in a way that can be copied. -/
lemma mem_names_iff {n : String} (hn : n ∈ plan.references) :
    n ∈ (plan.names exports declared).all ↔
      ((∃ r ∈ exports.imports, n ∈ r.bindings ∧ (r.typeOnly → plan.isTypescript)) ∨
        n ∈ exports.names) ∨
      n ∈ declared ∨ n ∈ plan.aliases := by
  have hnames : plan.allExports.map (·.name) = exports.names := by rw [hplan, ExportMap.names]
  have himported : n ∈ plan.listed.map Specifier.localName ↔
      n ∈ plan.aliases ∨ n ∈ plan.referred := by
    rw [plan.localNames_perm.mem_iff, List.mem_append]
  unfold OverrideNames.all names
  simp only [List.mem_append, himported, mem_copiedNames _ _ _ hn, mem_referred,
    mem_names_extended, hnames]
  by_cases hexported : n ∈ exports.names
  · by_cases hc : plan.Chosen n
    · simp [hexported, hc]
    · simp [hexported, hc, hn]
  · simp only [hexported, not_false_eq_true, true_and, false_and, or_false, or_assoc]
    exact or_congr_right or_comm

/-- No name is bound twice where no alias clashes and the default export declares no name that
the override imports from the source or extends. -/
lemma nodup_names_iff (hexports : exports.names.Nodup)
    (hsource : (exports.imports.flatMap ImportRecord.bindings ++ declared).Nodup) :
    (plan.names exports declared).all.Nodup ↔
      plan.aliases.Nodup ∧
      plan.aliases.Disjoint ((plan.names exports declared).copied ++ plan.referred ++
        (plan.names exports declared).extended ++ (plan.names exports declared).declared) ∧
      (plan.names exports declared).declared.Disjoint
        (plan.referred ++ (plan.names exports declared).extended) := by
  have hnames : plan.allExports.map (·.name) = exports.names := by rw [hplan, ExportMap.names]
  refine OverrideNames.nodup_all_iff plan.localNames_perm ?_ ?_ ?_
  · have hcopied := copiedNames_sublist exports plan.references plan.isTypescript
    exact hsource.sublist (hcopied.append_right declared)
  · rw [← hnames] at hexports
    exact plan.nodup_referred_extended hexports
  · intro n hcopied hexported
    refine notMem_names_of_mem_copiedNames _ _ _ hcopied ?_
    rw [← hnames]
    rcases List.mem_append.mp hexported with hn | hn
    · exact (plan.mem_referred.mp hn).1
    · exact (plan.mem_names_extended.mp hn).1

end OverridePlan

namespace Job

variable (job : Job) (fileName code : String) (chosen : List ExportRecord)
  (style : Option StyleOption)

/-- What the override of a source file is made from, when it is read from a text. -/
def planOf : OverridePlan :=
  job.plan fileName (readSource code fileName job.task.isTypescript) chosen style

/-- The names that the override of a source file binds at its top level. -/
def overrideNames : OverrideNames :=
  (job.planOf fileName code chosen style).names
    (analyzeTree (sourceTree code fileName) job.task.isTypescript)
    (defaultNames (sourceTree code fileName))

variable {fileName code chosen style}

lemma planOf_allExports :
    (job.planOf fileName code chosen style).allExports =
      (analyzeTree (sourceTree code fileName) job.task.isTypescript).named := by
  unfold planOf plan
  dsimp only
  rw [readSource_exports]

lemma planOf_references :
    (job.planOf fileName code chosen style).references =
      (readSource code fileName job.task.isTypescript).references := by
  unfold planOf plan
  dsimp only

lemma planOf_isTypescript :
    (job.planOf fileName code chosen style).isTypescript = job.task.isTypescript := by
  unfold planOf plan
  dsimp only

/-- The copied imports of an override are the copies of those imports whose names it binds. -/
theorem copiedImports_planOf :
    List.Forall₂
      (fun r text => r.Copies code.toList
        (analyzeTree (sourceTree code fileName) job.task.isTypescript).names
        (moduleImportDirectory job.sourceModule.name.shown
          (job.task.type.directory job.task.name)) text)
      (copiedRecords (analyzeTree (sourceTree code fileName) job.task.isTypescript)
        (job.planOf fileName code chosen style).references
        (job.planOf fileName code chosen style).isTypescript)
      (job.planOf fileName code chosen style).copiedImports := by
  rw [planOf_references, planOf_isTypescript]
  unfold planOf plan
  dsimp only
  rw [readSource_exports]
  exact copiedImports_forall₂ _ _ _ _ _

/-- The store of a module is to be extended in another module. -/
def ofStore : Job where
  task := { type := .store, name := "X", target := .ofString "/t" }
  settings := {}
  resource := .ofString "/b/src/store/X"
  sourceModule := ⟨.ofString "/b", .text "b", .null, .null⟩
  directory := .ofString "/t/src/store/X"

/-- The export `a` of a source file that is read without types. -/
def exportA (code fileName : String) : List ExportRecord :=
  (analyzeTree (sourceTree code fileName) false).named.filter (·.name == "a")

/-- A source file whose default export is a value that it exports under a name as well. -/
def sharedValue : String := "export const a = 1;\nexport default a;\n"

/-- The default export of an error-free source file refers to a name that the source binds at its
top level, but the override, whose text is given, does not. -/
def Misses (fileName code name content : String) : Prop :=
  (sourceTree code fileName).hasError = false ∧ name ∈ topNames (sourceTree code fileName) ∧
  Refers code fileName job.task.isTypescript name ∧
  synthesize (job.planOf fileName code (exportA code fileName) none) = .ok content ∧
  name ∉ (job.overrideNames fileName code (exportA code fileName) none).all ∧
  name ∉ topNames (sourceTree content (untypedFileName fileName))

/-- The override misses a name, if its text does. -/
lemma Misses.of_text {fileName code name content : String}
    (hsource : (sourceTree code fileName).hasError = false ∧
      name ∈ topNames (sourceTree code fileName) ∧
      Refers code fileName job.task.isTypescript name ∧
      (job.planOf fileName code (exportA code fileName) none).text = content ∧
      Dialect.ofFileName (job.planOf fileName code (exportA code fileName) none).outputName =
        Dialect.ofFileName (untypedFileName fileName) ∧
      name ∉ (job.overrideNames fileName code (exportA code fileName) none).all)
    (hcontent : hasSyntaxErrors (Dialect.ofFileName (untypedFileName fileName)) content.toList =
        false ∧
      name ∉ topNames (parse (Dialect.ofFileName (untypedFileName fileName)) content.toList)) :
    job.Misses fileName code name content := by
  obtain ⟨hvalid, htop, hrefers, htext, hdialect, hnames⟩ := hsource
  refine ⟨hvalid, htop, hrefers, synthesize_eq_ok_iff.mpr ⟨htext, ?_⟩, hnames, hcontent.2⟩
  rw [hdialect]
  exact hcontent.1

/-- **When no name is bound twice.** Where the top level of the source binds no name twice, the
override binds one twice only if an alias clashes, or if the default export declares a name that
the override also imports from the source or extends. -/
theorem nodup_overrideNames_iff (h : (topNames (sourceTree code fileName)).Nodup) :
    (job.overrideNames fileName code chosen style).all.Nodup ↔
      (job.planOf fileName code chosen style).aliases.Nodup ∧
      (job.planOf fileName code chosen style).aliases.Disjoint
        ((job.overrideNames fileName code chosen style).copied ++
          (job.planOf fileName code chosen style).referred ++
          (job.overrideNames fileName code chosen style).extended ++
          (job.overrideNames fileName code chosen style).declared) ∧
      (job.overrideNames fileName code chosen style).declared.Disjoint
        ((job.planOf fileName code chosen style).referred ++
          (job.overrideNames fileName code chosen style).extended) := by
  have hsource := nodup_recordedNames _ h
  rw [← flatMap_bindings_imports _ job.task.isTypescript] at hsource
  exact (job.planOf fileName code chosen style).nodup_names_iff _ job.planOf_allExports
    (names_analyzeTree_nodup _ _) hsource

set_option maxRecDepth 10000 in
theorem nodup_overrideNames_iff_sharedValue :
    (topNames (sourceTree sharedValue "X.js")).Nodup ∧
    (ofStore.overrideNames "X.js" sharedValue (exportA sharedValue "X.js") none).all.Nodup := by
  have h : (topNames (sourceTree sharedValue "X.js")).Nodup := by decide +kernel
  refine ⟨h, (ofStore.nodup_overrideNames_iff h).mpr ⟨by decide +kernel, ?_, ?_⟩⟩
  · exact List.disjoint_left.mpr (by decide +kernel)
  · exact List.disjoint_left.mpr (by decide +kernel)

/-- A source file whose default export declares a name that it exports as well. -/
def exportedDefault : String :=
  "export const a = 1;\nexport default class F \x7b\x7d\nexport \x7b F \x7d;\n"

/-- The override of that file, where the other export is extended. -/
def exportedDefaultOverride : String :=
  "import \x7b\n    a as sourceA,\n    F,\n\x7d from 'b/src/store/X/X';\n\n" ++
    "export \x7b F \x7d from 'b/src/store/X/X';\n\n" ++
    "export const a = sourceA;\n\nexport default class F \x7b\x7d\n"

set_option maxRecDepth 10000 in
/-- What the default export declares is bound twice where it is exported as well. -/
theorem not_nodup_overrideNames_exportedDefault :
    (sourceTree exportedDefault "X.js").hasError = false ∧
    (topNames (sourceTree exportedDefault "X.js")).Nodup ∧
    synthesize (ofStore.planOf "X.js" exportedDefault (exportA exportedDefault "X.js") none) =
      .ok exportedDefaultOverride ∧
    ¬ (ofStore.overrideNames "X.js" exportedDefault (exportA exportedDefault "X.js")
      none).all.Nodup ∧
    ¬ (topNames (sourceTree exportedDefaultOverride "X.js")).Nodup := by
  obtain ⟨hvalid, hsource, htext, hnames⟩ :
      (sourceTree exportedDefault "X.js").hasError = false ∧
      (topNames (sourceTree exportedDefault "X.js")).Nodup ∧
      (ofStore.planOf "X.js" exportedDefault (exportA exportedDefault "X.js") none).text =
        exportedDefaultOverride ∧
      ¬ (ofStore.overrideNames "X.js" exportedDefault (exportA exportedDefault "X.js")
        none).all.Nodup := by
    decide +kernel
  -- the characters are spelled out, as they take long to compute from a long text
  obtain ⟨herrors, hoverride⟩ :
      hasSyntaxErrors (Dialect.ofFileName "X.js") exportedDefaultOverride.toList = false ∧
      ¬ (topNames (parse (Dialect.ofFileName "X.js") exportedDefaultOverride.toList)).Nodup := by
    unfold exportedDefaultOverride
    simp only [String.toList_append]
    rewrite [String.toList_ofList, String.toList_ofList, String.toList_ofList]
    decide +kernel
  exact ⟨hvalid, hsource, synthesize_eq_ok_iff.mpr ⟨htext, herrors⟩, hnames, hoverride⟩

end Job

end ThemeOverride
