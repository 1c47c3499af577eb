import Mathlib.Data.List.Induction
import ThemeOverride.Proofs.Export.Slices
import ThemeOverride.Proofs.Export.Statements

/-!
# What the records of a script keep to

The records of a script name places in its text, and files are put together from the slices of the
text at these places. Of the records of named exports some are left out: those that exist for types
alone, where types are not wanted, and those under a name that was recorded before. This module says
what holds of the records of every text, whether or not the grammar can read it.

## Main definitions

* `ThemeOverride.Analysis.placedStatements` — the statements of a script at their places.
* `ThemeOverride.Analysis.allRecords` — the records of named exports before any is left out.
* `ThemeOverride.Analysis.KeepsFirst` — the first record of each name of a sequence.
* `ThemeOverride.Analysis.Covers` — a stretch of a text is that of a statement.
* `ThemeOverride.ExportMap.Sound` — the records are in order.

## Main results

* `ThemeOverride.Analysis.keepsFirst_firstOfEachName` — the first record of each name is kept.
* `ThemeOverride.Analysis.pairwise_placedStatements` — statements do not overlap.
* `ThemeOverride.analyzeExports_sound` — the records of every script are in order.

## Design

Every record takes its stretch from a statement. So what is said about stretches is proved about
statements at their places, once, and is carried over to the records: first to the records of all
named exports, and from there to those that are left, which are some of them in their order.
-/

namespace ThemeOverride

open Script

namespace Analysis

/-! ## The first record of each name -/

/-- **The first record of each name** of a sequence, which is read from its start: a record is kept
if no record before it has its name. -/
inductive KeepsFirst : List ExportRecord → List ExportRecord → Prop
  | nil : KeepsFirst [] []
  | first {records kept : List ExportRecord} {r : ExportRecord} (h : KeepsFirst records kept)
      (hnew : r.name ∉ records.map (·.name)) : KeepsFirst (records ++ [r]) (kept ++ [r])
  | again {records kept : List ExportRecord} {r : ExportRecord} (h : KeepsFirst records kept)
      (hseen : r.name ∈ records.map (·.name)) : KeepsFirst (records ++ [r]) kept

/-- A record at the end of a sequence is kept if its name is neither among those seen before nor
among those of the sequence. -/
lemma firstOfEachName_concat (seen : List String) (records : List ExportRecord) (r : ExportRecord) :
    firstOfEachName seen (records ++ [r]) = firstOfEachName seen records ++
      if r.name ∈ seen ∨ r.name ∈ records.map (·.name) then [] else [r] := by
  induction records generalizing seen with
  | nil => by_cases h : r.name ∈ seen <;> simp [firstOfEachName, h]
  | cons first rest ih =>
    rw [List.cons_append, firstOfEachName, firstOfEachName]
    by_cases hseen : first.name ∈ seen
    · -- the name of the first record adds nothing to those seen
      have hiff : (r.name ∈ seen ∨ r.name ∈ rest.map (·.name)) ↔
          (r.name ∈ seen ∨ r.name ∈ (first :: rest).map (·.name)) := by
        rw [List.map_cons, List.mem_cons]
        constructor
        · rintro (h | h)
          · exact .inl h
          · exact .inr (.inr h)
        · rintro (h | h | h)
          · exact .inl h
          · exact .inl (h ▸ hseen)
          · exact .inr h
      simp only [List.contains_iff_mem, hseen, if_true, ih, hiff]
    · have hiff : (r.name ∈ first.name :: seen ∨ r.name ∈ rest.map (·.name)) ↔
          (r.name ∈ seen ∨ r.name ∈ (first :: rest).map (·.name)) := by
        rw [List.map_cons, List.mem_cons, List.mem_cons]
        tauto
      simp only [List.contains_iff_mem, hseen, if_false, ih, hiff, List.cons_append]

/-- **Only the first record of each name is kept.** -/
theorem keepsFirst_firstOfEachName (records : List ExportRecord) :
    KeepsFirst records (firstOfEachName [] records) := by
  induction records using List.reverseRecOn with
  | nil => exact .nil
  | append_singleton records r ih =>
    rw [firstOfEachName_concat]
    by_cases hseen : r.name ∈ records.map (·.name)
    · simpa [hseen] using ih.again hseen
    · simpa [hseen] using ih.first hseen

/-! ## Statements at their places -/

/-- The statements of a script at their places, which are counted in bytes. -/
def placedStatements (root : Tree) : List Placed := (Placed.mk 0 root).namedChildren byteWeight

/-- The records of named exports in the order of the statements, before any of them is left out. -/
def allRecords (root : Tree) : List ExportRecord :=
  (placedStatements root).flatMap (namedRecords (localKinds root.namedChildren))

/-- **A stretch of a text is that of a statement**: it lies in the text, and the slice there is the
text of the statement. -/
structure Covers (source : String) (span : Nat × Nat) (statement : Placed) : Prop where
  span_eq : span = statement.span byteWeight
  start_le_stop : span.1 ≤ span.2
  stop_le_size : span.2 ≤ source.utf8ByteSize
  slice_eq : byteSlice source.toList span.1 span.2 = statement.tree.text

lemma weigh_byteWeight (s : List Char) : weigh byteWeight s = (String.ofList s).utf8ByteSize := by
  induction s with
  | nil => rfl
  | cons c s ih =>
    have hsplit : String.ofList (c :: s) = String.singleton c ++ String.ofList s :=
      (String.ofList_append : String.ofList ([c] ++ s) = _)
    rw [hsplit, String.utf8ByteSize_append, String.utf8ByteSize_singleton, ← ih]
    rfl

/-- What stands in a text covers a stretch of it. -/
lemma covers_span {source : String} {p : Placed} (h : p.IsIn byteWeight source.toList) :
    Covers source (p.span byteWeight) p where
  span_eq := rfl
  start_le_stop := p.start_le_stop
  stop_le_size := by
    have hle := h.stop_le
    rwa [weigh_byteWeight, String.ofList_toList] at hle
  slice_eq := byteSlice_span h

/-- **Statements do not overlap**: each ends before the next one begins. -/
theorem pairwise_placedStatements (root : Tree) :
    (placedStatements root).Pairwise fun p q => p.stop byteWeight ≤ q.start byteWeight := by
  have hrow := Placed.pairwise_row byteWeight 0 root.children
  refine (hrow.imp fun {p q} hle => ?_).filter _
  rw [q.start_eq]
  omega

/-! ## Records of statements -/

section

variable {root : Tree} {includeTypes : Bool} {r : ExportRecord}

lemma analyzeTree_named : (analyzeTree root includeTypes).named =
    firstOfEachName [] ((allRecords root).filter fun r => includeTypes || !r.kind.isTypeOnly) := by
  unfold allRecords
  rw [← map_tree_statements]
  rfl

/-- Without types, the records that exist for types alone are deleted before the first of each name
is taken; with types none is deleted. -/
lemma keepsFirst_analyzeTree : KeepsFirst
    (if includeTypes then allRecords root else (allRecords root).filter fun r => !r.kind.isTypeOnly)
    (analyzeTree root includeTypes).named := by
  rw [analyzeTree_named]
  cases includeTypes with
  | true => simpa using keepsFirst_firstOfEachName (allRecords root)
  | false => simpa using keepsFirst_firstOfEachName _

lemma sublist_named : (analyzeTree root includeTypes).named.Sublist (allRecords root) := by
  rw [analyzeTree_named]
  exact (sublist_firstOfEachName _ _).trans List.filter_sublist

/-- The record of a named export has the stretch of its statement. -/
lemma of_mem_namedRecords {kinds : List (String × ExportKind)} {p : Placed}
    (h : r ∈ namedRecords kinds p) :
    p.tree.kind = .exportStatement ∧ isDefaultExport p.tree = false ∧
      r.span = p.span byteWeight := by
  obtain ⟨hkind, hdefault⟩ := of_mem_exportedNames (mem_exportedNames.mpr ⟨r, h, rfl, rfl⟩)
  refine ⟨hkind, hdefault, ?_⟩
  unfold namedRecords at h
  split at h
  · cases h
  · obtain ⟨name, -, rfl⟩ := List.mem_map.mp h
    rfl

/-- The stretches of all records are in the order of the statements. -/
lemma pairwise_allRecords (root : Tree) : (allRecords root).Pairwise fun r r' =>
    r.span.1 ≤ r'.span.1 ∧ r.span.2 ≤ r'.span.2 := by
  unfold allRecords
  rw [List.pairwise_flatMap]
  refine ⟨fun p _ => List.pairwise_of_forall_mem_list fun r hr r' hr' => ?_,
    (pairwise_placedStatements root).imp fun {p q} hle r hr r' hr' => ?_⟩
  · -- records of one statement
    rw [(of_mem_namedRecords hr).2.2, (of_mem_namedRecords hr').2.2]
    exact ⟨le_rfl, le_rfl⟩
  · rw [(of_mem_namedRecords hr).2.2, (of_mem_namedRecords hr').2.2]
    have hp : p.start byteWeight ≤ p.stop byteWeight := p.start_le_stop
    have hq : q.start byteWeight ≤ q.stop byteWeight := q.start_le_stop
    constructor <;> simp only [Placed.span] <;> omega

lemma exists_of_mem_named (h : r ∈ (analyzeTree root includeTypes).named) :
    ∃ p ∈ placedStatements root, p.tree.kind = .exportStatement ∧
      isDefaultExport p.tree = false ∧ r.span = p.span byteWeight := by
  obtain ⟨p, hp, hr⟩ := List.mem_flatMap.mp (sublist_named.subset h)
  exact ⟨p, hp, of_mem_namedRecords hr⟩

/-- The record of the default export has the stretch of a statement that is one. -/
lemma exists_of_mem_defaultExport (h : r ∈ (analyzeTree root includeTypes).defaultExport) :
    ∃ p ∈ placedStatements root, isDefaultExport p.tree = true ∧ r.span = p.span byteWeight := by
  obtain ⟨p, hp, rfl⟩ := Option.map_eq_some_iff.mp h
  obtain ⟨hmem, hdefault⟩ := List.mem_filter.mp (List.mem_of_getLast? hp)
  exact ⟨p, hmem, hdefault, rfl⟩

/-- **The record of an import** has the stretch of its statement. The stretch of the module's name
lies in it, and the slice there is the name. -/
theorem importRecord?_spans {p : Placed} {s : List Char} {i : ImportRecord}
    (hp : p.IsIn byteWeight s) (h : importRecord? p = some i) :
    i.span = p.span byteWeight ∧ i.span.1 ≤ i.sourceSpan.1 ∧ i.sourceSpan.1 ≤ i.sourceSpan.2 ∧
      i.sourceSpan.2 ≤ i.span.2 ∧
      byteSlice s i.sourceSpan.1 i.sourceSpan.2 = i.source.toList := by
  unfold importRecord? at h
  obtain ⟨source, hsource, h⟩ := Option.bind_eq_some_iff.mp h
  obtain ⟨fragment, hfragment, h⟩ := Option.bind_eq_some_iff.mp h
  obtain rfl := Option.some.inj h
  have hpart : fragment.IsPart byteWeight p :=
    (Placed.isPart_of_mem_namedChildren (List.mem_of_find?_eq_some hfragment)).trans
      (Placed.isPart_of_child? hsource)
  obtain ⟨before, after, -, hstart, hstop⟩ := hpart.exists_text
  have hslice := byteSlice_span (hpart.isIn hp)
  refine ⟨rfl, ?_, fragment.start_le_stop, ?_, ?_⟩
  · simp only [Placed.span]
    omega
  · simp only [Placed.span]
    omega
  · rw [Tree.toText, String.toList_ofList]
    exact hslice

end

end Analysis

open Analysis

/-- **The records of a script are in order.** No name is recorded twice, and the records of named
exports stand in the order of their stretches. The statements of the script do not overlap, and each
record covers one of them in the text. The name of an imported module lies within its import. What
is recorded of named exports is the first record of each name: with types of all records, without
types of those that are left when the records that exist for types alone are deleted. -/
structure ExportMap.Sound (source : String) (root : Tree) (includeTypes : Bool) (m : ExportMap) :
    Prop where
  names_nodup : m.names.Nodup
  named_sorted : m.named.Pairwise fun r r' => r.span.1 ≤ r'.span.1 ∧ r.span.2 ≤ r'.span.2
  statements_apart :
    (placedStatements root).Pairwise fun p q => p.stop byteWeight ≤ q.start byteWeight
  named_covers : ∀ r ∈ m.named, ∃ p ∈ placedStatements root,
    p.tree.kind = .exportStatement ∧ isDefaultExport p.tree = false ∧ Covers source r.span p
  default_covers : ∀ r ∈ m.defaultExport, ∃ p ∈ placedStatements root,
    isDefaultExport p.tree = true ∧ Covers source r.span p
  imports_cover : ∀ i ∈ m.imports, ∃ p ∈ placedStatements root,
    p.tree.kind = .importStatement ∧ Covers source i.span p
  imports_apart : m.imports.Pairwise fun i j => i.span.2 ≤ j.span.1
  sources_inside : ∀ i ∈ m.imports, i.span.1 ≤ i.sourceSpan.1 ∧ i.sourceSpan.1 ≤ i.sourceSpan.2 ∧
    i.sourceSpan.2 ≤ i.span.2 ∧
      byteSlice source.toList i.sourceSpan.1 i.sourceSpan.2 = i.source.toList
  untyped : includeTypes = false → ∀ r ∈ m.named, r.kind.isTypeOnly = false
  kept : KeepsFirst
    (if includeTypes then allRecords root else (allRecords root).filter fun r => !r.kind.isTypeOnly)
    m.named

/-- The records of a tree that stands in a text are in order. -/
lemma sound_analyzeTree {source : String} {root : Tree}
    (h : (Placed.mk 0 root).IsIn byteWeight source.toList) (includeTypes : Bool) :
    (analyzeTree root includeTypes).Sound source root includeTypes := by
  have hin : ∀ p ∈ placedStatements root, p.IsIn byteWeight source.toList := fun p hp =>
    (Placed.isPart_of_mem_namedChildren hp).isIn h
  have himport : ∀ i ∈ (analyzeTree root includeTypes).imports, ∃ p ∈ placedStatements root,
      p.tree.kind = .importStatement ∧ importRecord? p = some i := by
    intro i hi
    obtain ⟨p, hp, hrecord⟩ := List.mem_filterMap.mp hi
    obtain ⟨hmem, hkind⟩ := List.mem_filter.mp hp
    exact ⟨p, hmem, by simpa using hkind, hrecord⟩
  refine ⟨names_analyzeTree_nodup root includeTypes,
    (pairwise_allRecords root).sublist sublist_named, pairwise_placedStatements root,
    fun r hr => ?_, fun r hr => ?_, fun i hi => ?_, ?_, fun i hi => ?_, fun htypes r hr => ?_,
    keepsFirst_analyzeTree⟩
  · obtain ⟨p, hp, hkind, hdefault, hspan⟩ := exists_of_mem_named hr
    exact ⟨p, hp, hkind, hdefault, hspan ▸ covers_span (hin p hp)⟩
  · obtain ⟨p, hp, hdefault, hspan⟩ := exists_of_mem_defaultExport hr
    exact ⟨p, hp, hdefault, hspan ▸ covers_span (hin p hp)⟩
  · obtain ⟨p, hp, hkind, hrecord⟩ := himport i hi
    have hspan := (importRecord?_spans (hin p hp) hrecord).1
    exact ⟨p, hp, hkind, hspan ▸ covers_span (hin p hp)⟩
  · -- the statements of two imports do not overlap
    refine List.pairwise_filterMap.mpr (((pairwise_placedStatements root).filter _).imp_of_mem ?_)
    intro p q hp hq hle i hi j hj
    rw [(importRecord?_spans (hin p (List.mem_filter.mp hp).1) hi).1,
      (importRecord?_spans (hin q (List.mem_filter.mp hq).1) hj).1]
    exact hle
  · obtain ⟨p, hp, -, hrecord⟩ := himport i hi
    exact (importRecord?_spans (hin p hp) hrecord).2
  · simpa [htypes] using isTypeOnly_of_mem_named hr

/-- **The records of every script are in order**, whether or not the grammar can read it, and what
is recorded without types is also recorded with types.

**Proof sketch.** The tree of a text holds the text (`Script.chars_parse_prefix`), so each statement
stands at its place in it, and statements in a row do not overlap. The records take their stretches
from the statements in their order, and those that are kept are some of them in this order. -/
theorem analyzeExports_sound (source fileName : String) :
    (∀ includeTypes, (analyzeExports source fileName includeTypes).Sound source
      (parse (Dialect.ofFileName fileName) source.toList) includeTypes) ∧
    (analyzeExports source fileName false).names ⊆ (analyzeExports source fileName true).names := by
  refine ⟨fun includeTypes => sound_analyzeTree (Placed.isIn_parse _ _) includeTypes,
    fun name hname => ?_⟩
  obtain ⟨t, ht, kind, hexported, -⟩ := (mem_names_analyzeTree _ _).mp hname
  exact (mem_names_analyzeTree _ _).mpr ⟨t, ht, kind, hexported, .inl rfl⟩

end ThemeOverride
