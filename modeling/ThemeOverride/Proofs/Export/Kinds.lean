import ThemeOverride.Proofs.Export.Statements

/-!
# Exports of values and of types

One name can stand for a value and for a type at once, and a script can export both under it. The
analysis keeps one record for each name. Which one it keeps decides whether the value is passed
on, so it is told here from the order of the statements.

## Main definitions

* `ThemeOverride.Analysis.exportList` — all that a script exports, in the order of its text.
* `ThemeOverride.Analysis.ExportsValue` — a statement exports a value under a name.
* `ThemeOverride.Analysis.RecordsValue` — the record of a name is that of a value.
* `ThemeOverride.Analysis.TypeHides` — what exists for types alone comes in the place of the value.

## Main results

* `ThemeOverride.Analysis.recordsValue_iff` — the value that a statement exports is recorded
  exactly where no type hides it.

## Design

A list of exports takes the kind of a name from the last declaration of it, and of all exports
under one name the first is recorded. Both are said by `exportList`: its entries hold the kinds
as they are taken, and `List.lookup` finds the first entry.
-/

namespace ThemeOverride

open Script

namespace Analysis

/-! ## What a statement exports -/

/-- All that a script exports under a name of its own, in the order of its text, with what is
exported. -/
def exportList (root : Tree) : List (String × ExportKind) :=
  root.namedChildren.flatMap (exportedNames (localKinds root.namedChildren))

/-- The names that an export statement lists, as parts of the tree. -/
def specifiers (statement : Tree) : List Tree :=
  match statement.namedChildren.find? (·.kind == .exportClause) with
  | none => []
  | some clause => clause.namedChildren.filter (·.kind == .exportSpecifier)

/-- The name that is exported for a listed one: its other name, if it has one. -/
def exportedUnder? (specifier : Tree) : Option String :=
  ((specifier.child? .alias).or (specifier.child? .name)).map fun t =>
    String.ofList (unquoted t.text)

/-- A declaration binds a name to a value. -/
def DeclaresValue (declaration : Tree) (name : String) : Prop :=
  ∃ n ∈ declaredNames declaration, n.1 = name ∧ ¬ n.2.isTypeOnly

/-- A statement lists, among names that are not for types alone, one that the script declares as
a value, and exports it under the given name. -/
def ListsValue (root statement : Tree) (name : String) : Prop :=
  ¬ statement.hasKeyword "type" ∧ name ≠ "default" ∧
    ∃ specifier ∈ specifiers statement, ¬ specifier.hasKeyword "type" ∧
      exportedUnder? specifier = some name ∧
        ∃ n ∈ localKinds root.namedChildren,
          (specifier.child? .name).map Tree.toText = some n.1 ∧ ¬ n.2.isTypeOnly

/-- A statement of a script exports a value under a name: by a declaration, or by listing a name
that the script declares as a value. -/
def ExportsValue (root statement : Tree) (name : String) : Prop :=
  statement.kind = .exportStatement ∧ ¬ isDefaultExport statement ∧
    match statement.child? .declaration with
    | some declaration => DeclaresValue declaration name
    | none => ListsValue root statement name

instance (declaration : Tree) (name : String) : Decidable (DeclaresValue declaration name) :=
  inferInstanceAs (Decidable (∃ n ∈ declaredNames declaration, n.1 = name ∧ ¬ n.2.isTypeOnly))

instance (root statement : Tree) (name : String) : Decidable (ListsValue root statement name) :=
  inferInstanceAs (Decidable (¬ statement.hasKeyword "type" ∧ name ≠ "default" ∧
    ∃ specifier ∈ specifiers statement, ¬ specifier.hasKeyword "type" ∧
      exportedUnder? specifier = some name ∧
        ∃ n ∈ localKinds root.namedChildren,
          (specifier.child? .name).map Tree.toText = some n.1 ∧ ¬ n.2.isTypeOnly))

instance (root statement : Tree) (name : String) : Decidable (ExportsValue root statement name) :=
  match h : statement.child? .declaration with
  | some declaration =>
    decidable_of_iff (statement.kind = .exportStatement ∧ ¬ isDefaultExport statement ∧
      DeclaresValue declaration name) (by unfold ExportsValue; rw [h])
  | none =>
    decidable_of_iff (statement.kind = .exportStatement ∧ ¬ isDefaultExport statement ∧
      ListsValue root statement name) (by unfold ExportsValue; rw [h])

/-- The record that the analysis keeps of a name is that of a value. -/
def RecordsValue (root : Tree) (includeTypes : Bool) (name : String) : Prop :=
  ∃ r ∈ (analyzeTree root includeTypes).named, r.name = name ∧ ¬ r.kind.isTypeOnly

/-- What exists for types alone comes in the place of a value: with types, the first export under
the name is of that sort; without types, all of them are, so that none is left. -/
def TypeHides (root : Tree) (includeTypes : Bool) (name : String) : Prop :=
  if includeTypes then ∃ kind ∈ (exportList root).lookup name, kind.isTypeOnly
  else ∀ n ∈ exportList root, n.1 = name → n.2.isTypeOnly

instance (root : Tree) (includeTypes : Bool) (name : String) :
    Decidable (RecordsValue root includeTypes name) :=
  inferInstanceAs (Decidable (∃ r ∈ (analyzeTree root includeTypes).named,
    r.name = name ∧ ¬ r.kind.isTypeOnly))

instance (root : Tree) (includeTypes : Bool) (name : String) :
    Decidable (TypeHides root includeTypes name) :=
  inferInstanceAs (Decidable (if includeTypes then
      ∃ kind ∈ (exportList root).lookup name, kind.isTypeOnly
    else ∀ n ∈ exportList root, n.1 = name → n.2.isTypeOnly))

/-! ## The first record of each name -/

/-- The record that is kept of a name is the first one. -/
lemma find?_firstOfEachName {name : String} {seen : List String} (h : name ∉ seen)
    (records : List ExportRecord) :
    (firstOfEachName seen records).find? (·.name == name) =
      records.find? (·.name == name) := by
  induction records generalizing seen with
  | nil => rfl
  | cons r rest ih =>
    unfold firstOfEachName
    by_cases hr : r.name = name
    · have hnot : seen.contains r.name = false := by simpa [hr] using h
      rw [if_neg (by simp only [hnot, Bool.false_eq_true, not_false_eq_true]),
        List.find?_cons_of_pos (by simpa using hr), List.find?_cons_of_pos (by simpa using hr)]
    · rw [List.find?_cons_of_neg (by simpa using hr)]
      split
      · exact ih h
      · rw [List.find?_cons_of_neg (by simpa using hr)]
        exact ih (by simpa using ⟨fun heq => hr heq.symm, h⟩)

/-- A name is recorded once, so that what holds of its record holds of the first one. -/
lemma exists_firstOfEachName_iff {name : String} {records : List ExportRecord}
    {p : ExportRecord → Prop} :
    (∃ r ∈ firstOfEachName [] records, r.name = name ∧ p r) ↔
      ∃ r, records.find? (·.name == name) = some r ∧ p r := by
  rw [← find?_firstOfEachName (List.not_mem_nil (a := name)) records]
  constructor
  · rintro ⟨r, hr, rfl, hp⟩
    have hsome : ((firstOfEachName [] records).find? (·.name == r.name)).isSome := by
      rw [List.find?_isSome]
      exact ⟨r, hr, beq_self_eq_true _⟩
    obtain ⟨first, hfirst⟩ := Option.isSome_iff_exists.mp hsome
    have hname : first.name = r.name := by simpa using List.find?_some hfirst
    have heq : first = r := List.inj_on_of_nodup_map (nodup_firstOfEachName [] records)
      (List.mem_of_find?_eq_some hfirst) hr hname
    exact ⟨first, hfirst, heq ▸ hp⟩
  · rintro ⟨r, hr, hp⟩
    exact ⟨r, List.mem_of_find?_eq_some hr, by simpa using List.find?_some hr, hp⟩

/-! ## The records of a script -/

section Records

variable {root : Tree} {name : String}

/-- Names and kinds of all records of a script, before one is kept of each name. -/
lemma map_records (root : Tree) :
    (((Placed.mk 0 root).namedChildren byteWeight).flatMap
      (namedRecords (localKinds (((Placed.mk 0 root).namedChildren byteWeight).map (·.tree))))).map
        (fun r => (r.name, r.kind)) = exportList root := by
  rw [map_tree_statements, List.map_flatMap, exportList]
  conv_rhs => rw [← map_tree_statements root, List.flatMap_map]
  rw [map_tree_statements]
  exact List.flatMap_congr fun p _ => map_namedRecords _ p

lemma lookup_map_records (records : List ExportRecord) :
    (records.map fun r => (r.name, r.kind)).lookup name =
      (records.find? (·.name == name)).map (·.kind) := by
  induction records with
  | nil => rfl
  | cons r rest ih =>
    rw [List.map_cons, List.lookup_cons, List.find?_cons]
    by_cases h : r.name = name
    · simp [h]
    · have h' : (name == r.name) = false := by simpa using fun heq : name = r.name => h heq.symm
      have h'' : (r.name == name) = false := by simpa using h
      rw [h', h'']
      exact ih

/-- With types, the first export under a name is recorded. -/
lemma recordsValue_true_iff :
    RecordsValue root true name ↔
      ∃ kind, (exportList root).lookup name = some kind ∧ ¬ kind.isTypeOnly := by
  rw [← map_records root, lookup_map_records]
  unfold RecordsValue analyzeTree
  simp only [Bool.true_or, List.filter_true]
  rw [exists_firstOfEachName_iff]
  simp only [Option.map_eq_some_iff]
  constructor
  · rintro ⟨r, hr, hkind⟩
    exact ⟨r.kind, ⟨r, hr, rfl⟩, hkind⟩
  · rintro ⟨kind, ⟨r, hr, rfl⟩, hkind⟩
    exact ⟨r, hr, hkind⟩

/-- Without types, the first export of a value under a name is recorded. -/
lemma recordsValue_false_iff :
    RecordsValue root false name ↔
      ∃ kind, (name, kind) ∈ exportList root ∧ ¬ kind.isTypeOnly := by
  rw [← map_records root]
  unfold RecordsValue analyzeTree
  simp only [Bool.false_or]
  rw [exists_firstOfEachName_iff]
  generalize List.flatMap (namedRecords _) _ = records
  constructor
  · rintro ⟨r, hr, hkind⟩
    have hmem := (List.mem_filter.mp (List.mem_of_find?_eq_some hr)).1
    have hname : r.name = name := by simpa using List.find?_some hr
    exact ⟨r.kind, List.mem_map.mpr ⟨r, hmem, by rw [hname]⟩, hkind⟩
  · rintro ⟨kind, hmem, hkind⟩
    obtain ⟨r, hr, heq⟩ := List.mem_map.mp hmem
    obtain ⟨rfl, rfl⟩ := Prod.mk.inj heq
    have hvalue : r ∈ records.filter fun r => !r.kind.isTypeOnly :=
      List.mem_filter.mpr ⟨hr, by simpa using hkind⟩
    have hsome : ((records.filter fun r => !r.kind.isTypeOnly).find? (·.name == r.name)).isSome :=
      List.find?_isSome.mpr ⟨r, hvalue, by simp⟩
    obtain ⟨first, hfirst⟩ := Option.isSome_iff_exists.mp hsome
    have hkept := (List.mem_filter.mp (List.mem_of_find?_eq_some hfirst)).2
    exact ⟨first, hfirst, by simpa using hkept⟩

/-- A statement that lists a name exports it, whatever its kind is taken to be. -/
lemma exists_mem_listedNames {statement : Tree} (h : ListsValue root statement name) :
    ∃ kind, (name, kind) ∈ listedNames (localKinds root.namedChildren) statement := by
  obtain ⟨-, hdefault, specifier, hmem, -, hname, -⟩ := h
  obtain ⟨t, ht, htext⟩ := Option.map_eq_some_iff.mp hname
  have hnot : (name == "default") = false := by simpa using hdefault
  -- the branches differ in the kind alone
  have hexport : ∀ typeClause hasSource, ∃ kind,
      specifierExport? typeClause hasSource (localKinds root.namedChildren) specifier =
        some (name, kind) := by
    intro typeClause hasSource
    unfold specifierExport?
    simp only [ht, htext, hnot, Bool.false_eq_true, if_false]
    split
    · exact ⟨_, rfl⟩
    · split
      · exact ⟨_, rfl⟩
      · exact ⟨_, rfl⟩
  obtain ⟨kind, hkind⟩ := hexport (statement.hasKeyword "type") (statement.child? .source).isSome
  unfold specifiers at hmem
  unfold listedNames
  cases hclause : statement.namedChildren.find? (·.kind == .exportClause) with
  | none =>
    rw [hclause] at hmem
    cases hmem
  | some clause =>
    rw [hclause] at hmem
    exact ⟨kind, List.mem_filterMap.mpr ⟨specifier, hmem, hkind⟩⟩

/-- A statement that exports a value under a name has an entry in the list of exports. -/
lemma exists_mem_exportList (h : ∃ t ∈ root.namedChildren, ExportsValue root t name) :
    ∃ kind, (name, kind) ∈ exportList root := by
  obtain ⟨t, ht, hkind, hdefault, hexports⟩ := h
  have hmem : ∃ kind, (name, kind) ∈ exportedNames (localKinds root.namedChildren) t := by
    unfold exportedNames
    rw [if_neg (by simp [hkind, hdefault])]
    cases hd : t.child? .declaration with
    | some d =>
      rw [hd] at hexports
      obtain ⟨⟨_, kind⟩, hn, rfl, -⟩ := hexports
      exact ⟨kind, hn⟩
    | none =>
      rw [hd] at hexports
      exact exists_mem_listedNames hexports
  obtain ⟨kind, hk⟩ := hmem
  exact ⟨kind, List.mem_flatMap.mpr ⟨t, ht, hk⟩⟩

/-- **When an exported value is recorded.** A value that a statement exports under a name is
recorded as a value exactly where no type hides it: with types, where the first export under the
name is not of a type; without types, where one of them is of a value. -/
theorem recordsValue_iff {includeTypes : Bool}
    (h : ∃ t ∈ root.namedChildren, ExportsValue root t name) :
    RecordsValue root includeTypes name ↔ ¬ TypeHides root includeTypes name := by
  unfold TypeHides
  cases includeTypes with
  | true =>
    rw [recordsValue_true_iff, if_pos rfl]
    obtain ⟨kind, hmem⟩ := exists_mem_exportList h
    cases hfirst : (exportList root).lookup name with
    | none =>
      have hne := List.lookup_eq_none_iff.mp hfirst (name, kind) hmem
      simp at hne
    | some first => simp [Option.mem_def]
  | false =>
    rw [recordsValue_false_iff, if_neg Bool.false_ne_true]
    constructor
    · rintro ⟨kind, hmem, hkind⟩ hall
      exact hkind (hall (name, kind) hmem rfl)
    · intro hall
      push Not at hall
      obtain ⟨⟨_, kind⟩, hmem, rfl, hkind⟩ := hall
      exact ⟨kind, hmem, hkind⟩

/-- The syntax tree of a script that exports an interface and a constant under one name. -/
def interfaceFirst : Tree :=
  parse (Dialect.ofFileName "X.ts")
    "export interface A \x7b\x7d\nexport const A = 1;\n".toList

set_option maxRecDepth 10000 in
theorem recordsValue_iff_interfaceFirst :
    (∃ t ∈ interfaceFirst.namedChildren, ExportsValue interfaceFirst t "A") ∧
    (RecordsValue interfaceFirst false "A" ↔ ¬ TypeHides interfaceFirst false "A") ∧
    RecordsValue interfaceFirst false "A" := by
  have h : ∃ t ∈ interfaceFirst.namedChildren, ExportsValue interfaceFirst t "A" := by
    decide +kernel
  exact ⟨h, recordsValue_iff h, by decide +kernel⟩

/-- The syntax tree of a script that lists a constant of whose name it declares a type later. -/
def typeLast : Tree :=
  parse (Dialect.ofFileName "X.ts")
    "const A = 1;\ntype A = string;\nexport \x7b A \x7d;\n".toList

set_option maxRecDepth 10000 in
/-- An interface before a constant hides it where types are included, and a type that is declared
after a constant hides it in a list, so that without types it is not recorded at all. -/
theorem typeHides_interfaceFirst_typeLast :
    (interfaceFirst.hasError = false ∧
      (∃ t ∈ interfaceFirst.namedChildren, ExportsValue interfaceFirst t "A") ∧
      ¬ RecordsValue interfaceFirst true "A") ∧
    typeLast.hasError = false ∧
      (∃ t ∈ typeLast.namedChildren, ExportsValue typeLast t "A") ∧
      ¬ RecordsValue typeLast true "A" ∧ "A" ∉ (analyzeTree typeLast false).names := by
  decide +kernel

end Records

end Analysis

end ThemeOverride
