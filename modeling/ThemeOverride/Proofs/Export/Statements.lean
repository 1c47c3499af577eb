import Mathlib.Data.List.Flatten
import Mathlib.Data.List.Nodup
import ThemeOverride.Export.Analysis
import ThemeOverride.Proofs.Script.Walk

/-!
# What the statements of a script bind and export

The records of an analysis, read off the statements of the script: which imports are recorded,
under which names the script exports something, and what its default export declares.

## Main definitions

* `ThemeOverride.Analysis.statementNames`, `topNames` — the names that a statement binds at the
  top level of a script, and those that all statements bind.
* `ThemeOverride.Analysis.recordedImports` — the import statements of which there are records.
* `ThemeOverride.Analysis.exportedNames` — the names that a statement exports.
* `ThemeOverride.Analysis.defaultStatement?` — the default export.

## Main results

* `ThemeOverride.analyzeTree_imports` — the records of imports are those of the statements.
* `ThemeOverride.mem_names_analyzeTree` — the exported names are those of the statements.
* `ThemeOverride.names_analyzeTree_nodup` — no name is exported twice.
* `ThemeOverride.Analysis.nodup_recordedNames` — where the top level of a script binds no name
  twice, its imports and its default export bind different names.
-/

namespace ThemeOverride

open Script

namespace Analysis

/-! ## Statements -/

/-- The bindings of an import statement. -/
def importClauses (statement : Tree) : List ImportClause :=
  (statement.namedChildren.filter (·.kind == .importClause)).flatMap fun clause =>
    clause.namedChildren.flatMap bindings

/-- Whether an import statement names the module it imports from. -/
def namesModule (statement : Tree) : Bool :=
  match statement.child? .source with
  | none => false
  | some source => source.namedChildren.any (·.kind == .stringFragment)

/-- Whether a statement is an import. -/
def isImport (t : Tree) : Bool := t.kind == .importStatement

/-- The import statements of which there are records. -/
def recordedImports (root : Tree) : List Tree :=
  (root.namedChildren.filter isImport).filter namesModule

/-- The default export of a script: the last one, if there are several. -/
def defaultStatement? (root : Tree) : Option Tree :=
  (root.namedChildren.filter isDefaultExport).getLast?

/-- The names that a statement exports, with what is exported under them; `default` is not among
them. -/
def exportedNames (kinds : List (String × ExportKind)) (statement : Tree) :
    List (String × ExportKind) :=
  if statement.kind != .exportStatement || isDefaultExport statement then []
  else
    match statement.child? .declaration with
    | some d => declaredNames d
    | none => listedNames kinds statement

/-- The names that a statement binds at the top level of its script: those of an import, or of a
declaration, which may be exported. -/
def statementNames (statement : Tree) : List String :=
  if isImport statement then (importClauses statement).map (·.localName)
  else if statement.kind == .exportStatement then
    match statement.child? .declaration with
    | none => []
    | some d => (declaredNames d).map (·.1)
  else (declaredNames statement).map (·.1)

/-- The names that a script binds at its top level. -/
def topNames (root : Tree) : List String := root.namedChildren.flatMap statementNames

/-- The names that the default export of a script declares. -/
def defaultNames (root : Tree) : List String :=
  (defaultStatement? root).toList.flatMap statementNames

/-! ## Parts at their places -/

section Placed

variable (weight : Char → Nat) (p : Placed)

lemma map_tree_namedChildren : (p.namedChildren weight).map (·.tree) = p.tree.namedChildren := by
  unfold Placed.namedChildren Tree.namedChildren
  rw [← p.map_tree_children weight, List.filter_map]
  rfl

lemma map_tree_child? (f : Field) : (p.child? weight f).map (·.tree) = p.tree.child? f := by
  unfold Placed.child? Tree.child?
  rw [← p.map_tree_children weight, List.find?_map]
  rfl

lemma namesModule_eq :
    namesModule p.tree = (p.child? weight .source).any fun source =>
      (source.namedChildren weight).any (·.tree.kind == .stringFragment) := by
  unfold namesModule
  rw [← map_tree_child? weight]
  cases p.child? weight .source with
  | none => rfl
  | some source =>
    change source.tree.namedChildren.any (·.kind == .stringFragment) = _
    rw [← map_tree_namedChildren weight, List.any_map]
    rfl

/-- There is a record of an import statement where it names its module, and it holds the bindings
of the statement. -/
lemma importRecord?_eq :
    (importRecord? p).map (fun r => (r.clauses, r.typeOnly)) =
      if namesModule p.tree then some (importClauses p.tree, p.tree.hasKeyword "type")
      else none := by
  rw [namesModule_eq byteWeight]
  unfold importRecord?
  cases p.child? byteWeight .source with
  | none => rfl
  | some source =>
    have hfind : ((source.namedChildren byteWeight).find? (·.tree.kind == .stringFragment)).isSome =
        (source.namedChildren byteWeight).any (·.tree.kind == .stringFragment) := List.isSome_find?
    rw [Option.any_some, ← hfind]
    cases hf : (source.namedChildren byteWeight).find? (·.tree.kind == .stringFragment) with
    | none => simp [hf]
    | some fragment => simp [hf, importClauses]

end Placed

/-! ## The first record of each name -/

lemma mem_firstOfEachName {name : String} {seen : List String} {records : List ExportRecord} :
    name ∈ (firstOfEachName seen records).map (·.name) ↔
      name ∈ records.map (·.name) ∧ name ∉ seen := by
  induction records generalizing seen with
  | nil => simp [firstOfEachName]
  | cons r rest ih =>
    unfold firstOfEachName
    split
    · rename_i hseen
      have hmem : r.name ∈ seen := by simpa using hseen
      rw [ih, List.map_cons, List.mem_cons]
      constructor
      · rintro ⟨hname, hnot⟩
        exact ⟨Or.inr hname, hnot⟩
      · rintro ⟨rfl | hname, hnot⟩
        · exact absurd hmem hnot
        · exact ⟨hname, hnot⟩
    · rename_i hseen
      have hnot : r.name ∉ seen := by simpa using hseen
      rw [List.map_cons, List.mem_cons, ih, List.map_cons, List.mem_cons, List.mem_cons]
      by_cases hr : name = r.name
      · simp [hr, hnot]
      · simp [hr]

lemma nodup_firstOfEachName (seen : List String) (records : List ExportRecord) :
    ((firstOfEachName seen records).map (·.name)).Nodup := by
  induction records generalizing seen with
  | nil => exact List.nodup_nil
  | cons r rest ih =>
    unfold firstOfEachName
    split
    · exact ih seen
    · rw [List.map_cons, List.nodup_cons, mem_firstOfEachName]
      exact ⟨fun h => h.2 List.mem_cons_self, ih _⟩

/-- Of the records of a sequence some are kept, in their order. -/
lemma sublist_firstOfEachName (seen : List String) (records : List ExportRecord) :
    (firstOfEachName seen records).Sublist records := by
  induction records generalizing seen with
  | nil => exact .slnil
  | cons r rest ih =>
    unfold firstOfEachName
    split
    · exact (ih seen).cons r
    · exact (ih _).cons_cons r

/-! ## The records of a script -/

section Records

variable (root : Tree) (includeTypes : Bool)

lemma map_tree_statements :
    ((Placed.mk 0 root).namedChildren byteWeight).map (·.tree) = root.namedChildren :=
  map_tree_namedChildren byteWeight _

lemma statementNames_of_recorded {root t : Tree} (h : t ∈ recordedImports root) :
    statementNames t = (importClauses t).map (·.localName) := by
  unfold statementNames
  rw [if_pos (List.mem_filter.mp (List.mem_filter.mp h).1).2]

/-- **The records of imports** are those of the import statements that name their modules. -/
theorem analyzeTree_imports :
    (analyzeTree root includeTypes).imports.map (fun r => (r.clauses, r.typeOnly)) =
      (recordedImports root).map fun t => (importClauses t, t.hasKeyword "type") := by
  unfold recordedImports analyzeTree
  dsimp only
  rw [List.map_filterMap, ← map_tree_statements, List.filter_map, List.filter_map, List.map_map,
    ← List.filterMap_eq_map, List.filterMap_filter, List.filterMap_filter, List.filterMap_filter]
  refine List.filterMap_congr fun p _ => ?_
  rw [importRecord?_eq]
  rfl

/-- The names that recorded imports bind, of types only where they may be imported. -/
lemma exists_import_iff (name : String) (mayImport : Bool → Prop) :
    (∃ r ∈ (analyzeTree root includeTypes).imports, name ∈ r.bindings ∧ mayImport r.typeOnly) ↔
      ∃ t ∈ recordedImports root, name ∈ statementNames t ∧ mayImport (t.hasKeyword "type") := by
  have hrecords : ∀ p : List ImportClause × Bool,
      p ∈ (analyzeTree root includeTypes).imports.map (fun r => (r.clauses, r.typeOnly)) ↔
        p ∈ (recordedImports root).map fun t => (importClauses t, t.hasKeyword "type") := by
    intro p
    rw [analyzeTree_imports]
  constructor
  · rintro ⟨r, hr, hname, hmay⟩
    obtain ⟨t, ht, heq⟩ := List.mem_map.mp ((hrecords _).mp (List.mem_map_of_mem hr))
    obtain ⟨hclauses, htypes⟩ := Prod.mk.inj heq
    refine ⟨t, ht, ?_, by rwa [htypes]⟩
    rw [statementNames_of_recorded ht, hclauses]
    exact hname
  · rintro ⟨t, ht, hname, hmay⟩
    obtain ⟨r, hr, heq⟩ := List.mem_map.mp ((hrecords _).mpr (List.mem_map_of_mem ht))
    obtain ⟨hclauses, htypes⟩ := Prod.mk.inj heq
    refine ⟨r, hr, ?_, by rwa [htypes]⟩
    rw [statementNames_of_recorded ht, ← hclauses] at hname
    exact hname

/-- The names that recorded imports bind, in the order of the statements. -/
lemma flatMap_bindings_imports :
    (analyzeTree root includeTypes).imports.flatMap ImportRecord.bindings =
      (recordedImports root).flatMap statementNames := by
  have hnames : (recordedImports root).flatMap statementNames =
      ((recordedImports root).map fun t => (importClauses t, t.hasKeyword "type")).flatMap
        fun p => p.1.map (·.localName) := by
    rw [List.flatMap_map]
    exact List.flatMap_congr fun t ht => statementNames_of_recorded ht
  rw [hnames, ← analyzeTree_imports root includeTypes, List.flatMap_map]
  rfl

/-- The references of the default export are those of its statement. -/
lemma analyzeTree_defaultExport :
    (analyzeTree root includeTypes).defaultExport.map (·.references) =
      (defaultStatement? root).map references := by
  unfold defaultStatement?
  rw [← map_tree_statements, List.filter_map, List.getLast?_map, Option.map_map]
  unfold analyzeTree
  dsimp only
  rw [Option.map_map]
  rfl

lemma map_namedRecords (kinds : List (String × ExportKind)) (p : Placed) :
    (namedRecords kinds p).map (fun r => (r.name, r.kind)) = exportedNames kinds p.tree := by
  unfold namedRecords exportedNames
  split
  · rfl
  · rw [List.map_map]
    exact List.map_id _

lemma mem_exportedNames {kinds : List (String × ExportKind)} {p : Placed} {name : String}
    {kind : ExportKind} :
    (name, kind) ∈ exportedNames kinds p.tree ↔
      ∃ r ∈ namedRecords kinds p, r.name = name ∧ r.kind = kind := by
  rw [← map_namedRecords, List.mem_map]
  simp only [Prod.mk.injEq]

/-- What exports a name is an export statement, and no default export. -/
lemma of_mem_exportedNames {kinds : List (String × ExportKind)} {t : Tree}
    {name : String × ExportKind} (h : name ∈ exportedNames kinds t) :
    t.kind = .exportStatement ∧ isDefaultExport t = false := by
  unfold exportedNames at h
  split at h
  · cases h
  · rename_i hkind
    simpa using hkind

/-- **The exported names** are those of the statements, of types only where they are included. -/
theorem mem_names_analyzeTree {name : String} :
    name ∈ (analyzeTree root includeTypes).names ↔
      ∃ t ∈ root.namedChildren, ∃ kind,
        (name, kind) ∈ exportedNames (localKinds root.namedChildren) t ∧
          (includeTypes ∨ ¬ kind.isTypeOnly) := by
  rw [← map_tree_statements root]
  unfold ExportMap.names analyzeTree
  dsimp only
  rw [mem_firstOfEachName]
  generalize localKinds _ = kinds
  simp only [List.not_mem_nil, not_false_eq_true, and_true, List.mem_map, List.mem_filter,
    List.mem_flatMap, Bool.or_eq_true, Bool.not_eq_true', Bool.not_eq_true]
  constructor
  · rintro ⟨r, ⟨⟨p, hp, hr⟩, hkind⟩, rfl⟩
    exact ⟨p.tree, ⟨p, hp, rfl⟩, r.kind, mem_exportedNames.mpr ⟨r, hr, rfl, rfl⟩, hkind⟩
  · rintro ⟨t, ⟨p, hp, rfl⟩, kind, hname, hkind⟩
    obtain ⟨r, hr, rfl, rfl⟩ := mem_exportedNames.mp hname
    exact ⟨r, ⟨⟨p, hp, hr⟩, hkind⟩, rfl⟩

/-- Without types, nothing that exists for types alone is recorded. -/
lemma isTypeOnly_of_mem_named {root : Tree} {includeTypes : Bool} {r : ExportRecord}
    (h : r ∈ (analyzeTree root includeTypes).named) : includeTypes ∨ ¬ r.kind.isTypeOnly := by
  unfold analyzeTree at h
  have hkept := (List.mem_filter.mp ((sublist_firstOfEachName _ _).subset h)).2
  simpa using hkept

/-- No name is exported twice. -/
theorem names_analyzeTree_nodup : (analyzeTree root includeTypes).names.Nodup :=
  nodup_firstOfEachName [] _

/-- **Different names.** Where the top level of a script binds no name twice, its imports and its
default export bind different names. -/
theorem nodup_recordedNames (h : (topNames root).Nodup) :
    ((recordedImports root).flatMap statementNames ++ defaultNames root).Nodup := by
  -- the statements by whether they are imports
  have hsplit : ((root.namedChildren.filter isImport).flatMap statementNames ++
      (root.namedChildren.filter (!isImport ·)).flatMap statementNames).Nodup := by
    rw [← List.flatMap_append]
    have hperm := (List.filter_append_perm isImport root.namedChildren).flatMap_right statementNames
    exact hperm.nodup_iff.mpr h
  have himports : (recordedImports root).Sublist (root.namedChildren.filter isImport) :=
    List.filter_sublist
  have hdefault : (defaultNames root).Sublist
      ((root.namedChildren.filter (!isImport ·)).flatMap statementNames) := by
    unfold defaultNames
    cases hs : defaultStatement? root with
    | none => exact List.nil_sublist _
    | some statement =>
      obtain ⟨hmem, hkind⟩ := List.mem_filter.mp (List.mem_of_getLast? hs)
      have hother : statement ∈ root.namedChildren.filter (!isImport ·) := by
        refine List.mem_filter.mpr ⟨hmem, ?_⟩
        unfold isDefaultExport at hkind
        rw [Bool.and_eq_true, beq_iff_eq] at hkind
        unfold isImport
        rw [hkind.1]
        rfl
      rw [Option.toList_some, List.flatMap_singleton, List.flatMap_def]
      exact List.sublist_flatten_of_mem (List.mem_map_of_mem hother)
  exact hsplit.sublist ((himports.flatMap statementNames).append hdefault)

end Records

end Analysis

end ThemeOverride
