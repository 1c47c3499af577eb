import Mathlib.Data.List.Nodup
import Mathlib.Tactic.Lemma
import ThemeOverride.Override.Synthesis

/-!
# The pieces of an override file

An override file is a row of pieces with a blank line between each two. Together the clauses that
pass names on and the scaffolds export what the source file exports, each name once; which of them
exports a name is decided by the choice of the operator, and by the kind of the export where the
override has types.

## Main definitions

* `ThemeOverride.Specifier` — a name that an override imports from its source.
* `ThemeOverride.Piece` — a piece of an override file, with its text and the names it exports.
* `ThemeOverride.OverridePlan.pieces` — the pieces of an override file, in their order.
* `ThemeOverride.OverridePlan.Partition` — what the pieces export and import.

## Main results

* `ThemeOverride.OverridePlan.text_eq_join_pieces` — an override file is the row of its pieces.
* `ThemeOverride.renderExtension_declares` — a scaffold exports the name of its export.
* `ThemeOverride.OverridePlan.exports_pieces_perm` — the pieces export the names of the source.
* `ThemeOverride.synthesize_partition` — every name of the source is exported by exactly one piece.
-/

namespace ThemeOverride

/-- Joined texts are empty only if each of them is. -/
lemma Text.join_ne_empty {separator text : String} {texts : List String} (h : text ∈ texts)
    (hne : text ≠ "") : Text.join separator texts ≠ "" := by
  induction texts with
  | nil => cases h
  | cons first rest ih =>
    cases rest with
    | nil =>
      rw [List.mem_singleton.mp h] at hne
      exact hne
    | cons second rest =>
      rcases List.mem_cons.mp h with rfl | h
      · simp [Text.join, hne]
      · simp [Text.join, ih h]

/-! ## Specifiers -/

/-- A name that an override imports from its source, perhaps under another name. -/
structure Specifier where
  name : String
  alias? : Option String := none
  deriving DecidableEq, Repr

namespace Specifier

/-- The text of a specifier. -/
def text (s : Specifier) : String :=
  match s.alias? with
  | some localName => s.name ++ " as " ++ localName
  | none => s.name

/-- The name that a specifier introduces. -/
def localName (s : Specifier) : String := s.alias?.getD s.name

end Specifier

namespace OverridePlan

variable (plan : OverridePlan)

/-- A name that the operator has chosen. -/
def Chosen (name : String) : Prop := ∃ r ∈ plan.chosen, r.name = name

instance (name : String) : Decidable (plan.Chosen name) :=
  inferInstanceAs (Decidable (∃ r ∈ plan.chosen, r.name = name))

/-- What the override imports of an export: an export that is extended under another name, one
that the default export refers to under its own. -/
def specifierOf? (name : String) : Option Specifier :=
  if plan.Chosen name then some ⟨name, some (sourceLocalName name)⟩
  else if name ∈ plan.references then some ⟨name, none⟩
  else none

/-- What the override imports from its source, in the order of the source. -/
def listed : List Specifier := plan.allExports.filterMap fun r => plan.specifierOf? r.name

lemma any_chosen (name : String) :
    plan.chosen.any (·.name == name) = decide (plan.Chosen name) := by
  rw [Bool.eq_iff_iff, List.any_eq_true, decide_eq_true_eq]
  simp only [Chosen, beq_iff_eq]

lemma passthrough_eq : plan.passthrough = plan.allExports.filter fun r => ¬ plan.Chosen r.name := by
  unfold passthrough partitionExports
  rw [List.partition_eq_filter_filter]
  refine List.filter_congr fun r _ => ?_
  rw [any_chosen, decide_not]

lemma extended_eq : plan.extended = plan.allExports.filter fun r => plan.Chosen r.name := by
  unfold extended partitionExports
  rw [List.partition_eq_filter_filter]
  refine List.filter_congr fun r _ => ?_
  rw [Function.comp_apply, any_chosen, Bool.not_not]

lemma mem_passthrough {r : ExportRecord} :
    r ∈ plan.passthrough ↔ r ∈ plan.allExports ∧ ¬ plan.Chosen r.name := by
  rw [passthrough_eq, List.mem_filter, decide_eq_true_eq]

lemma mem_extended {r : ExportRecord} :
    r ∈ plan.extended ↔ r ∈ plan.allExports ∧ plan.Chosen r.name := by
  rw [extended_eq, List.mem_filter, decide_eq_true_eq]

/-- The texts that the override lists in the import of its source are those of the specifiers. -/
lemma specifiers_eq : plan.specifiers = plan.listed.map Specifier.text := by
  unfold specifiers listed
  rw [List.map_filterMap]
  refine List.filterMap_congr fun r hr => ?_
  have hchosen : plan.extended.any (·.name == r.name) = decide (plan.Chosen r.name) := by
    rw [Bool.eq_iff_iff, List.any_eq_true, decide_eq_true_eq]
    constructor
    · rintro ⟨e, he, hname⟩
      rw [← beq_iff_eq.mp hname]
      exact (plan.mem_extended.mp he).2
    · intro hc
      exact ⟨r, plan.mem_extended.mpr ⟨hr, hc⟩, beq_self_eq_true _⟩
  unfold specifierOf?
  rw [hchosen]
  by_cases hc : plan.Chosen r.name
  · simp [hc, Specifier.text]
  · by_cases href : r.name ∈ plan.references
    · simp [hc, href, Specifier.text]
    · simp [hc, href]

/-- What is imported from the source: each chosen export under another name, and each other
export that the default export refers to under its own. -/
lemma mem_listed {s : Specifier} :
    s ∈ plan.listed ↔ ∃ r ∈ plan.allExports,
      (plan.Chosen r.name ∧ s = ⟨r.name, some (sourceLocalName r.name)⟩) ∨
      (¬ plan.Chosen r.name ∧ r.name ∈ plan.references ∧ s = ⟨r.name, none⟩) := by
  unfold listed
  rw [List.mem_filterMap]
  refine exists_congr fun r => and_congr_right fun _ => ?_
  unfold specifierOf?
  by_cases hc : plan.Chosen r.name
  · simp [hc, eq_comm]
  · by_cases href : r.name ∈ plan.references
    · simp [hc, href, eq_comm]
    · simp [hc, href]

lemma name_of_specifierOf? {name : String} {s : Specifier} (h : plan.specifierOf? name = some s) :
    s.name = name := by
  unfold specifierOf? at h
  split at h
  · cases h
    rfl
  · split at h
    · cases h
      rfl
    · cases h

/-- What is imported from the source stands in its order. -/
lemma listed_sublist : (plan.listed.map (·.name)).Sublist (plan.allExports.map (·.name)) := by
  unfold listed
  induction plan.allExports with
  | nil => exact List.Sublist.slnil
  | cons r rest ih =>
    rw [List.filterMap_cons, List.map_cons]
    split
    · exact ih.cons _
    · rename_i s hs
      rw [List.map_cons, plan.name_of_specifierOf? hs]
      exact ih.cons_cons _

end OverridePlan

/-! ## Scaffolds -/

/-- A text that begins with the exported declaration of a name. -/
def Declares (name text : String) : Prop :=
  ∃ keyword ∈ ["class", "const", "interface", "type"], ∃ rest : List Char,
    text.toList = ("export " ++ keyword ++ " " ++ name).toList ++ rest ∧
      (rest.head? = some ' ' ∨ rest.head? = some ':')

/-- **A scaffold exports the name of its export.** Its text begins with a declaration of it. -/
theorem renderExtension_declares (r : ExportRecord) (isTypescript : Bool) :
    Declares r.name (renderExtension r isTypescript) := by
  unfold renderExtension scaffold
  dsimp only
  cases r.kind with
  | «class» => exact ⟨"class", by simp, _, by simp; rfl, by simp⟩
  | interface => exact ⟨"interface", by simp, _, by simp; rfl, by simp⟩
  | type => exact ⟨"type", by simp, _, by simp; rfl, by simp⟩
  | value => exact ⟨"const", by simp, _, by simp; rfl, by simp⟩
  | reference => exact ⟨"const", by simp, _, by simp; rfl, by simp⟩
  | function =>
    by_cases hm : mapsToProps r.name
    · rw [if_pos hm]
      cases isTypescript <;> exact ⟨"const", by simp, _, by simp; rfl, by simp⟩
    · rw [if_neg hm]
      cases isTypescript <;> exact ⟨"const", by simp, _, by simp; rfl, by simp⟩
  | object => cases isTypescript <;> exact ⟨"const", by simp, _, by simp; rfl, by simp⟩
  | «enum» => cases isTypescript <;> exact ⟨"const", by simp, _, by simp; rfl, by simp⟩

lemma Declares.ne_empty {name text : String} (h : Declares name text) : text ≠ "" := by
  obtain ⟨keyword, -, rest, htext, -⟩ := h
  rintro rfl
  simp at htext

/-! ## Pieces -/

/-- A piece of an override file: its imports, one on each line; a clause that passes names on,
perhaps as types alone; the scaffold of an export; the default export of the source. -/
inductive Piece where
  | imports (lines : List String)
  | clause (typesAlone : Bool) (names : List String)
  | scaffold (record : ExportRecord)
  | defaultExport (code : String)
  deriving DecidableEq, Repr

namespace Piece

/-- The text of a piece, in an override that imports its source from a path. -/
def text (path : String) (isTypescript : Bool) : Piece → String
  | imports lines => Text.join "\n" lines
  | clause false names => OverridePlan.braced "export" names path
  | clause true names => OverridePlan.braced "export type" names path
  | scaffold r => renderExtension r isTypescript
  | defaultExport code => code

/-- The names that a piece exports, besides the default export. -/
def exports : Piece → List String
  | imports _ | defaultExport _ => []
  | clause _ names => names
  | scaffold r => [r.name]

/-- The lines of a piece with imports. -/
def lines? : Piece → Option (List String)
  | imports lines => some lines
  | _ => none

/-- The export that a scaffold extends. -/
def record? : Piece → Option ExportRecord
  | scaffold r => some r
  | _ => none

/-- Where no name is exported twice, a piece that exports a name is the only one. -/
lemma filter_exports_eq {pieces : List Piece} (h : (pieces.flatMap exports).Nodup) {p : Piece}
    (hp : p ∈ pieces) {name : String} (hn : name ∈ p.exports) :
    pieces.filter (fun q => name ∈ q.exports) = [p] := by
  induction pieces with
  | nil => cases hp
  | cons q rest ih =>
    rw [List.flatMap_cons, List.nodup_append'] at h
    obtain ⟨-, hrest, hdisjoint⟩ := h
    rcases List.mem_cons.mp hp with rfl | hp
    · rw [List.filter_cons_of_pos (by simpa using hn), List.filter_eq_nil_iff.mpr]
      intro q hq hname
      exact hdisjoint hn (List.mem_flatMap.mpr ⟨q, hq, by simpa using hname⟩)
    · have hq : name ∉ q.exports := fun hname =>
        hdisjoint hname (List.mem_flatMap.mpr ⟨p, hp, hn⟩)
      rw [List.filter_cons_of_neg (by simpa using hq)]
      exact ih hrest hp

end Piece

namespace OverridePlan

variable (plan : OverridePlan)

/-- Whether an export is passed on as a type, where the override may say so. -/
def passedAsType (r : ExportRecord) : Bool := plan.isTypescript && r.kind.isTypeOnly

/-- The text of a piece of the override. -/
def pieceText (p : Piece) : String := p.text plan.sourcePath plan.isTypescript

/-- The clause that passes names on, if there are any. -/
def clauses (typesAlone : Bool) (names : List String) : List Piece :=
  if names.isEmpty then [] else [.clause typesAlone names]

/-- The piece with the imports, if they have a text. -/
def importPieces : List Piece :=
  if Text.join "\n" plan.imports = "" then [] else [.imports plan.imports]

/-- The piece with the default export, if it has a text. -/
def defaultPieces : List Piece :=
  (plan.defaultCode.toList.filter (· != "")).map .defaultExport

/-- The pieces of the override, in their order. -/
def pieces : List Piece :=
  plan.importPieces ++ clauses false plan.valuePassthrough ++
    clauses true plan.typePassthrough ++ plan.extended.map .scaffold ++ plan.defaultPieces

/-- The lines that import specifiers from the source, if there are any. -/
def sourceImport (specifiers : List Specifier) : List String :=
  if specifiers.isEmpty then []
  else [braced "import" (specifiers.map Specifier.text) plan.sourcePath]

/-- All imports, one on each line, when these specifiers are imported from the source. -/
def importLines (specifiers : List Specifier) : List String :=
  plan.copiedImports ++ plan.sourceImport specifiers ++ plan.styleImports

lemma imports_eq : plan.imports = plan.importLines plan.listed := by
  unfold imports importLines sourceImport
  rw [specifiers_eq]
  cases plan.listed with
  | nil => rfl
  | cons s rest => rfl

lemma braced_ne_empty {keyword : String} (hk : keyword ≠ "") (names : List String)
    (path : String) : braced keyword names path ≠ "" := by
  unfold braced
  split
  · simp [hk]
  · simp [hk]

/-- The text of a clause, which is never empty. -/
lemma passClause_filter (typesAlone : Bool) (names : List String) :
    (plan.passClause (if typesAlone then "export type" else "export") names).filter (· != "") =
      (clauses typesAlone names).map plan.pieceText := by
  unfold passClause clauses
  cases names with
  | nil => rfl
  | cons name rest =>
    cases typesAlone with
    | true => simp [braced_ne_empty, pieceText, Piece.text]
    | false => simp [braced_ne_empty, pieceText, Piece.text]

/-- The parts of an override file are the texts of its pieces. -/
lemma sections_eq : plan.sections = plan.pieces.map plan.pieceText := by
  have himports : [Text.join "\n" plan.imports].filter (· != "") =
      plan.importPieces.map plan.pieceText := by
    unfold importPieces
    split
    · rename_i h
      simp [h]
    · rename_i h
      simp [h, pieceText, Piece.text]
  have hscaffolds : (plan.extended.map (renderExtension · plan.isTypescript)).filter (· != "") =
      (plan.extended.map Piece.scaffold).map plan.pieceText := by
    rw [List.map_map, List.filter_eq_self.mpr]
    · rfl
    · intro text htext
      obtain ⟨r, -, rfl⟩ := List.mem_map.mp htext
      rw [bne_iff_ne]
      exact (renderExtension_declares r plan.isTypescript).ne_empty
  have hdefault : plan.defaultCode.toList.filter (· != "") =
      plan.defaultPieces.map plan.pieceText := by
    unfold defaultPieces
    rw [List.map_map]
    exact (List.map_id _).symm
  have hvalues := plan.passClause_filter false plan.valuePassthrough
  have htypes := plan.passClause_filter true plan.typePassthrough
  unfold sections pieces
  simp only [List.filter_append, List.map_append, himports, hscaffolds, hdefault]
  simp only [if_true, Bool.false_eq_true, if_false] at hvalues htypes
  rw [hvalues, htypes]

/-- **An override file is the row of its pieces.** -/
theorem text_eq_join_pieces :
    plan.text = Text.join "\n\n" (plan.pieces.map plan.pieceText) ++ "\n" := by
  rw [text, sections_eq]

/-- Every piece has a text. -/
lemma pieceText_ne_empty {p : Piece} (hp : p ∈ plan.pieces) : plan.pieceText p ≠ "" := by
  have hmem : plan.pieceText p ∈ plan.sections := by
    rw [sections_eq]
    exact List.mem_map_of_mem hp
  unfold sections at hmem
  exact bne_iff_ne.mp (List.mem_filter.mp hmem).2

/-! ## What the pieces export -/

section Names

variable (hnames : (plan.allExports.map (·.name)).Nodup)

include hnames

lemma mem_typePassthrough {r : ExportRecord} (hr : r ∈ plan.passthrough) :
    r.name ∈ plan.typePassthrough ↔ plan.passedAsType r := by
  unfold typePassthrough
  rw [List.mem_map]
  constructor
  · rintro ⟨r', hr', hname⟩
    obtain ⟨hmem, htype⟩ := List.mem_filter.mp hr'
    have heq : r' = r := List.inj_on_of_nodup_map hnames (plan.mem_passthrough.mp hmem).1
      (plan.mem_passthrough.mp hr).1 hname
    rw [← heq]
    exact htype
  · intro htype
    exact ⟨r, List.mem_filter.mpr ⟨hr, htype⟩, rfl⟩

/-- The names passed on that are not passed on as types are those of the other exports. -/
lemma valuePassthrough_eq :
    plan.valuePassthrough = (plan.passthrough.filter (!plan.passedAsType ·)).map (·.name) := by
  unfold valuePassthrough
  rw [List.filter_map]
  congr 1
  refine List.filter_congr fun r hr => ?_
  have htype := plan.mem_typePassthrough hnames hr
  rw [Function.comp_apply, List.contains_eq_mem]
  simp [htype]

/-- **The pieces export the names of the source.** -/
theorem exports_pieces_perm :
    (plan.pieces.flatMap Piece.exports).Perm (plan.allExports.map (·.name)) := by
  have hclauses : ∀ typesAlone names, (clauses typesAlone names).flatMap Piece.exports = names := by
    intro typesAlone names
    unfold clauses
    cases names with
    | nil => rfl
    | cons name rest => simp [Piece.exports]
  have hscaffolds : (plan.extended.map Piece.scaffold).flatMap Piece.exports =
      plan.extended.map (·.name) := by
    rw [List.flatMap_map, List.map_eq_flatMap]
    rfl
  have hothers : plan.importPieces.flatMap Piece.exports = [] ∧
      plan.defaultPieces.flatMap Piece.exports = [] := by
    unfold importPieces defaultPieces
    constructor
    · split
      · rfl
      · rfl
    · rw [List.flatMap_map, List.flatMap_eq_nil_iff]
      exact fun _ _ => rfl
  have hexports : plan.pieces.flatMap Piece.exports =
      plan.valuePassthrough ++ plan.typePassthrough ++ plan.extended.map (·.name) := by
    unfold pieces
    simp only [List.flatMap_append, hclauses, hscaffolds, hothers, List.nil_append,
      List.append_nil]
  have hpassed : (plan.valuePassthrough ++ plan.typePassthrough).Perm
      (plan.passthrough.map (·.name)) := by
    rw [plan.valuePassthrough_eq hnames]
    refine List.perm_append_comm.trans ?_
    unfold typePassthrough
    rw [← List.map_append]
    exact (List.filter_append_perm plan.passedAsType plan.passthrough).map _
  rw [hexports]
  refine (hpassed.append_right _).trans ?_
  rw [← List.map_append, passthrough_eq, extended_eq]
  refine (List.perm_append_comm.trans ?_).map _
  simpa using List.filter_append_perm (fun r => decide (plan.Chosen r.name)) plan.allExports

end Names

/-! ## The partition -/

/-- What the pieces of an override file export and import. Every piece has a text. Together they
export the names of the source; a chosen name is exported by a scaffold alone, whose text declares
it, and another name by one clause alone, the one for types where the override has types and the
export is one. The pieces import exactly the specifiers from the source, besides the copied imports
and the imports of styles. All of this is in the order of the source, and the default export comes
last. -/
structure Partition (pieces : List Piece) (specifiers : List Specifier) : Prop where
  filled : ∀ p ∈ pieces, plan.pieceText p ≠ ""
  exported : (pieces.flatMap Piece.exports).Perm (plan.allExports.map (·.name))
  extended : ∀ r ∈ plan.allExports, plan.Chosen r.name →
    pieces.filter (fun p => r.name ∈ p.exports) = [.scaffold r]
  passed : ∀ r ∈ plan.allExports, ¬ plan.Chosen r.name → ∃ names,
    pieces.filter (fun p => r.name ∈ p.exports) =
      [.clause (plan.isTypescript && r.kind.isTypeOnly) names]
  declared : ∀ r, .scaffold r ∈ pieces → Declares r.name (plan.pieceText (.scaffold r))
  scaffolds_order : (pieces.filterMap Piece.record?).Sublist plan.allExports
  clause_order : ∀ typesAlone names, .clause typesAlone names ∈ pieces →
    names.Sublist (plan.allExports.map (·.name))
  listed : ∀ s, s ∈ specifiers ↔ ∃ r ∈ plan.allExports,
    (plan.Chosen r.name ∧ s = ⟨r.name, some (sourceLocalName r.name)⟩) ∨
    (¬ plan.Chosen r.name ∧ r.name ∈ plan.references ∧ s = ⟨r.name, none⟩)
  listed_order : (specifiers.map (·.name)).Sublist (plan.allExports.map (·.name))
  imported : ∀ lines, .imports lines ∈ pieces → lines = plan.importLines specifiers
  imported_once : (pieces.filterMap Piece.lines?).length ≤ 1
  imported_of_listed : specifiers ≠ [] → .imports (plan.importLines specifiers) ∈ pieces
  last : ∀ code, plan.defaultCode = some code → code ≠ "" →
    pieces.getLast? = some (.defaultExport code)

lemma mem_clauses {typesAlone : Bool} {names : List String} {p : Piece} :
    p ∈ clauses typesAlone names ↔ names ≠ [] ∧ p = .clause typesAlone names := by
  unfold clauses
  cases names with
  | nil => simp
  | cons name rest => simp

lemma mem_importPieces {p : Piece} :
    p ∈ plan.importPieces ↔ Text.join "\n" plan.imports ≠ "" ∧ p = .imports plan.imports := by
  unfold importPieces
  split
  · rename_i h
    simp [h]
  · rename_i h
    simp [h]

lemma mem_defaultPieces {p : Piece} :
    p ∈ plan.defaultPieces ↔ ∃ code, plan.defaultCode = some code ∧ code ≠ "" ∧
      p = .defaultExport code := by
  unfold defaultPieces
  rw [List.mem_map]
  refine exists_congr fun code => ?_
  rw [List.mem_filter, Option.mem_toList, bne_iff_ne, and_assoc, eq_comm (a := p)]

lemma mem_pieces {p : Piece} :
    p ∈ plan.pieces ↔
      (Text.join "\n" plan.imports ≠ "" ∧ p = .imports plan.imports) ∨
      (plan.valuePassthrough ≠ [] ∧ p = .clause false plan.valuePassthrough) ∨
      (plan.typePassthrough ≠ [] ∧ p = .clause true plan.typePassthrough) ∨
      (∃ r ∈ plan.extended, p = .scaffold r) ∨
      ∃ code, plan.defaultCode = some code ∧ code ≠ "" ∧ p = .defaultExport code := by
  have hscaffold : p ∈ plan.extended.map Piece.scaffold ↔ ∃ r ∈ plan.extended, p = .scaffold r := by
    rw [List.mem_map]
    exact exists_congr fun r => and_congr_right fun _ => eq_comm
  unfold pieces
  simp only [List.mem_append, mem_importPieces, mem_clauses, mem_defaultPieces, hscaffold, or_assoc]

/-- Every clause lists names passed on, in the order of the source. -/
lemma clause_sublist (hnames : (plan.allExports.map (·.name)).Nodup) {typesAlone : Bool}
    {names : List String} (h : .clause typesAlone names ∈ plan.pieces) :
    names.Sublist (plan.allExports.map (·.name)) := by
  have hsublist : ∀ p : ExportRecord → Bool,
      ((plan.passthrough.filter p).map (·.name)).Sublist (plan.allExports.map (·.name)) := by
    intro p
    rw [passthrough_eq]
    exact (List.filter_sublist.trans List.filter_sublist).map _
  rw [mem_pieces] at h
  simp only [reduceCtorEq, and_false, Piece.clause.injEq, exists_false, false_or, or_false] at h
  rcases h with ⟨-, -, rfl⟩ | ⟨-, -, rfl⟩
  · rw [plan.valuePassthrough_eq hnames]
    exact hsublist _
  · exact hsublist _

/-- The scaffolds extend the chosen exports. -/
lemma filterMap_record?_pieces : plan.pieces.filterMap Piece.record? = plan.extended := by
  have hclauses : ∀ typesAlone names, (clauses typesAlone names).filterMap Piece.record? = [] := by
    intro typesAlone names
    rw [List.filterMap_eq_nil_iff]
    intro p hp
    rw [(mem_clauses.mp hp).2]
    rfl
  have himports : plan.importPieces.filterMap Piece.record? = [] := by
    rw [List.filterMap_eq_nil_iff]
    intro p hp
    rw [(plan.mem_importPieces.mp hp).2]
    rfl
  have hdefault : plan.defaultPieces.filterMap Piece.record? = [] := by
    rw [List.filterMap_eq_nil_iff]
    intro p hp
    obtain ⟨code, -, -, rfl⟩ := plan.mem_defaultPieces.mp hp
    rfl
  unfold pieces
  simp only [List.filterMap_append, hclauses, himports, hdefault, List.filterMap_map,
    List.nil_append, List.append_nil]
  exact List.filterMap_some

/-- There is at most one piece with imports. -/
lemma length_filterMap_lines? : (plan.pieces.filterMap Piece.lines?).length ≤ 1 := by
  have hothers : (clauses false plan.valuePassthrough ++ clauses true plan.typePassthrough ++
      plan.extended.map Piece.scaffold ++ plan.defaultPieces).filterMap Piece.lines? = [] := by
    rw [List.filterMap_eq_nil_iff]
    intro p hp
    simp only [List.mem_append, mem_clauses, mem_defaultPieces, List.mem_map] at hp
    rcases hp with ((⟨-, rfl⟩ | ⟨-, rfl⟩) | ⟨r, -, rfl⟩) | ⟨code, -, -, rfl⟩ <;> rfl
  have hpieces : plan.pieces.filterMap Piece.lines? = plan.importPieces.filterMap Piece.lines? := by
    unfold pieces
    simp only [List.append_assoc] at hothers ⊢
    rw [List.filterMap_append, hothers, List.append_nil]
  rw [hpieces]
  unfold importPieces
  split
  · simp
  · simp [Piece.lines?]

/-- What is imported from the source makes a piece. -/
lemma imports_mem_pieces (h : plan.listed ≠ []) :
    Piece.imports (plan.importLines plan.listed) ∈ plan.pieces := by
  rw [mem_pieces, ← imports_eq]
  refine Or.inl ⟨?_, rfl⟩
  rw [imports_eq]
  have hline : braced "import" (plan.listed.map Specifier.text) plan.sourcePath ∈
      plan.importLines plan.listed := by
    unfold importLines sourceImport
    rw [List.isEmpty_eq_false_iff.mpr h]
    simp
  exact Text.join_ne_empty hline (braced_ne_empty (by simp) _ _)

/-- **The pieces make a partition.** -/
theorem partition_pieces (hnames : (plan.allExports.map (·.name)).Nodup) :
    plan.Partition plan.pieces plan.listed where
  filled _ := plan.pieceText_ne_empty
  exported := plan.exports_pieces_perm hnames
  extended r hr hc := by
    have hnodup := (plan.exports_pieces_perm hnames).nodup_iff.mpr hnames
    refine Piece.filter_exports_eq hnodup ?_ (List.mem_singleton.mpr rfl)
    rw [mem_pieces]
    exact Or.inr (Or.inr (Or.inr (Or.inl ⟨r, plan.mem_extended.mpr ⟨hr, hc⟩, rfl⟩)))
  passed r hr hc := by
    have hnodup := (plan.exports_pieces_perm hnames).nodup_iff.mpr hnames
    have hpassed : r ∈ plan.passthrough := plan.mem_passthrough.mpr ⟨hr, hc⟩
    have htype := plan.mem_typePassthrough hnames hpassed
    cases hb : plan.isTypescript && r.kind.isTypeOnly with
    | true =>
      have hmem : r.name ∈ plan.typePassthrough := htype.mpr hb
      refine ⟨plan.typePassthrough, Piece.filter_exports_eq hnodup ?_ hmem⟩
      rw [mem_pieces]
      exact Or.inr (Or.inr (Or.inl ⟨List.ne_nil_of_mem hmem, rfl⟩))
    | false =>
      have hmem : r.name ∈ plan.valuePassthrough := by
        rw [plan.valuePassthrough_eq hnames]
        exact List.mem_map.mpr ⟨r, List.mem_filter.mpr ⟨hpassed, by simp [passedAsType, hb]⟩, rfl⟩
      refine ⟨plan.valuePassthrough, Piece.filter_exports_eq hnodup ?_ hmem⟩
      rw [mem_pieces]
      exact Or.inr (Or.inl ⟨List.ne_nil_of_mem hmem, rfl⟩)
  declared r _ := renderExtension_declares r plan.isTypescript
  scaffolds_order := by
    rw [filterMap_record?_pieces, extended_eq]
    exact List.filter_sublist
  clause_order _ _ := plan.clause_sublist hnames
  listed _ := plan.mem_listed
  listed_order := plan.listed_sublist
  imported lines h := by
    rw [mem_pieces] at h
    simp only [Piece.imports.injEq, reduceCtorEq, and_false, exists_false, or_false] at h
    rw [h.2, imports_eq]
  imported_once := plan.length_filterMap_lines?
  imported_of_listed := plan.imports_mem_pieces
  last code hcode hne := by
    unfold pieces defaultPieces
    rw [hcode]
    simp [hne]

end OverridePlan

/-- An override is its text, if this can be read. -/
lemma synthesize_eq_ok_iff {plan : OverridePlan} {text : String} :
    synthesize plan = .ok text ↔ plan.text = text ∧
      Script.hasSyntaxErrors (Script.Dialect.ofFileName plan.outputName) text.toList = false := by
  unfold synthesize
  split
  · rename_i herrors
    simp only [reduceCtorEq, false_iff, not_and]
    rintro rfl
    simpa using herrors
  · rename_i herrors
    rw [Except.ok.injEq]
    constructor
    · rintro rfl
      exact ⟨rfl, by simpa using herrors⟩
    · exact fun h => h.1

/-- **Every name of the source is exported by exactly one piece.** Where the exports of a source
have different names, the text of an override is a row of pieces that partition them.

**Proof sketch.** The parts of the override are the texts of its pieces, of which the clauses and
scaffolds are never empty. The names in the two clauses and of the scaffolds are a permutation of
the names of the source, since both partitions are by a property of the name; so no name occurs
in two pieces, and it is enough to find one that exports it. -/
theorem synthesize_partition (plan : OverridePlan) (hnames : (plan.allExports.map (·.name)).Nodup)
    {content : String} (h : synthesize plan = .ok content) :
    ∃ pieces specifiers, content = Text.join "\n\n" (pieces.map plan.pieceText) ++ "\n" ∧
      plan.Partition pieces specifiers := by
  refine ⟨plan.pieces, plan.listed, ?_, plan.partition_pieces hnames⟩
  obtain ⟨rfl, -⟩ := synthesize_eq_ok_iff.mp h
  exact plan.text_eq_join_pieces

/-- A value that is extended, a type that is not, and a default export. -/
def OverridePlan.withType : OverridePlan where
  allExports := [{ name := "a" }, { name := "T", kind := .type }]
  chosen := [{ name := "a" }]
  defaultCode := some "export default a;"
  fileName := "X.ts"
  resourceType := .store
  resourceName := "X"
  sourcePath := "b/X"
  references := ["a"]
  isTypescript := true

set_option maxRecDepth 10000 in
theorem synthesize_partition_withType :
    (OverridePlan.withType.allExports.map (·.name)).Nodup ∧
    synthesize OverridePlan.withType = .ok OverridePlan.withType.text ∧
    ∃ pieces specifiers,
      OverridePlan.withType.text = Text.join "\n\n"
        (pieces.map OverridePlan.withType.pieceText) ++ "\n" ∧
      OverridePlan.withType.Partition pieces specifiers := by
  have hnames : (OverridePlan.withType.allExports.map (·.name)).Nodup := by decide
  have hcontent : synthesize OverridePlan.withType =
      .ok OverridePlan.withType.text := by decide
  exact ⟨hnames, hcontent, synthesize_partition _ hnames hcontent⟩

end ThemeOverride
