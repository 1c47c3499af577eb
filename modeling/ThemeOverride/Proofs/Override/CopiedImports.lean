import ThemeOverride.Proofs.Export.Slices
import ThemeOverride.Proofs.Export.Statements
import ThemeOverride.Proofs.Override.CopiedNames

/-!
# Copies of import statements

An override copies the import statements of its source that the default export needs. A copy is
told here from the statement in the syntax tree of the source: its text as it stands, with the
path of the module in the place of the one it names, or a statement spelled anew with the bindings
that are left.

## Main definitions

* `ThemeOverride.Analysis.specifier?` — the text that names the module of an import statement.
* `ThemeOverride.Analysis.leftClauses` — the bindings of a statement that are not exported.
* `ThemeOverride.Analysis.NeedsCopy` — a default export needs an import statement.
* `ThemeOverride.Analysis.IsCopy` — a text is the copy of an import statement.
* `ThemeOverride.spelledImport` — an import statement with given bindings.

## Main results

* `ThemeOverride.Analysis.importRecord?_slices` — the record of an import statement tells the
  text of the statement, and where in it the module is named.
* `ThemeOverride.copiedImports_exact` — the copied imports are the copies of the statements that
  are needed, and what is needed is bound by exactly one of them.

## Design

Places are kept in the records and the text in the tree. Everything about places is settled by
`importRecord?_slices`, so that copies are compared with the statements of the tree alone.
-/

namespace ThemeOverride

open Script

/-- An import statement with given bindings: those without braces first, the others in one pair
of braces. -/
def spelledImport (typeOnly : Bool) (clauses : List ImportClause) (path : String) : String :=
  let texts := fun braced : Bool => (clauses.filter (·.braced == braced)).map (·.text)
  let group :=
    match texts true with
    | [] => []
    | braced => ["\x7b " ++ Text.join ", " braced ++ " \x7d"]
  (if typeOnly then "import type" else "import") ++ " " ++ Text.join ", " (texts false ++ group) ++
    " from '" ++ path ++ "';"

/-- The path of a module seen from an override, for a text that names the module in the source. -/
def modulePathFrom (directory specifier : String) : String :=
  if ".".toList.isPrefixOf specifier.toList then
    String.ofList (normalizePath (joinPath directory.toList specifier.toList))
  else specifier

lemma ImportRecord.modulePath_eq (r : ImportRecord) (directory : String) :
    r.modulePath directory = modulePathFrom directory r.source := rfl

namespace ImportRecord

variable (r : ImportRecord)

/-- A statement that is rebuilt with some bindings is spelled with these. -/
lemma rebuild_eq (kept : List String) (path : String) :
    r.rebuild kept path =
      spelledImport r.typeOnly (r.clauses.filter fun c => kept.contains c.localName) path := by
  have htexts (braced : Bool) :
      (r.clauses.filter fun c => kept.contains c.localName).filter (·.braced == braced) =
        r.clauses.filter fun c => c.braced == braced && kept.contains c.localName :=
    List.filter_filter
  simp only [spelledImport, htexts]
  rfl

lemma eraseDups_of_nodup {names : List String} (h : names.Nodup) : names.eraseDups = names := by
  induction names with
  | nil => rfl
  | cons n rest ih =>
    obtain ⟨hn, hrest⟩ := List.nodup_cons.mp h
    have hother : rest.filter (fun m => !m == n) = rest :=
      List.filter_eq_self.mpr fun m hm => by
        have hne : m ≠ n := fun heq => hn (heq ▸ hm)
        simpa using hne
    rw [List.eraseDups_cons, hother, ih hrest]

/-- Where an import binds no name twice, fewer names are left exactly if one is exported. -/
lemma length_kept_lt_iff (exported : List String) (hr : r.bindings.Nodup) :
    (r.kept exported).length < r.bindings.length ↔ ¬ ∀ n ∈ r.bindings, n ∉ exported := by
  unfold kept
  rw [eraseDups_of_nodup (hr.filter _), ← not_iff_not, not_not]
  have hle := List.length_filter_le (fun n => !exported.contains n) r.bindings
  have hall :=
    List.length_filter_eq_length_iff (p := fun n => !exported.contains n) (l := r.bindings)
  simp only [Bool.not_eq_true', List.contains_eq_mem, decide_eq_false_iff_not] at hall hle ⊢
  rw [← hall]
  omega

/-- Where an import binds no name twice, its statement is copied as it stands if no binding is
left out, and is spelled anew otherwise. -/
lemma copied?_eq (exported references : List String) (hr : r.bindings.Nodup) (source : List Char)
    (directory : String) (isTypescript : Bool) :
    r.copied? source exported references directory isTypescript =
      if r.IsCopied exported references isTypescript then
        some (if ∀ n ∈ r.bindings, n ∉ exported then
            if r.isRelative then r.withModule source (r.modulePath directory)
            else String.ofList (byteSlice source r.span.1 r.span.2)
          else spelledImport r.typeOnly (r.without exported).clauses (r.modulePath directory))
      else none := by
  have hsome := r.copied?_isSome exported source references directory isTypescript
  split
  · rename_i hcopied
    obtain ⟨text, htext⟩ := Option.isSome_iff_exists.mp (hsome.mpr hcopied)
    rw [htext]
    have hspelled : r.rebuild (r.kept exported) (r.modulePath directory) =
        spelledImport r.typeOnly (r.without exported).clauses (r.modulePath directory) := by
      have hall : (r.without exported).clauses.filter
          (fun c => (r.without exported).bindings.contains c.localName) =
            (r.without exported).clauses :=
        List.filter_eq_self.mpr fun c hc => List.contains_iff_mem.mpr (List.mem_map_of_mem hc)
      rw [rebuild_kept, rebuild_eq, hall]
      rfl
    unfold copied? at htext
    dsimp only at htext
    simp only [r.length_kept_lt_iff exported hr, hspelled] at htext
    split at htext
    · cases htext
    · split at htext
      · cases htext
      · by_cases hall : ∀ n ∈ r.bindings, n ∉ exported
        · rw [if_neg (not_not.mpr hall)] at htext
          rw [if_pos hall, ← htext, apply_ite some]
        · rw [if_pos hall] at htext
          rw [if_neg hall, htext]
  · rename_i hnot
    exact Option.not_isSome_iff_eq_none.mp (hsome.not.mpr hnot)

end ImportRecord

namespace Analysis

/-- The text that names the module of an import statement, as a part of the statement. -/
def specifier? (statement : Tree) : Option Tree :=
  (statement.child? .source).bind fun source =>
    source.namedChildren.find? (·.kind == .stringFragment)

/-- The bindings of an import statement under names that are not exported. -/
def leftClauses (exported : List String) (statement : Tree) : List ImportClause :=
  (importClauses statement).filter fun c => c.localName ∉ exported

/-- A default export that refers to some names needs an import statement: it refers to a binding
of the statement that is not exported, and the statement may stand in the language of the
override. -/
def NeedsCopy (exported references : List String) (isTypescript : Bool) (statement : Tree) :
    Prop :=
  (∃ c ∈ leftClauses exported statement, c.localName ∈ references) ∧
    (statement.hasKeyword "type" → isTypescript)

instance (exported references : List String) (isTypescript : Bool) (statement : Tree) :
    Decidable (NeedsCopy exported references isTypescript statement) :=
  inferInstanceAs (Decidable ((∃ c ∈ leftClauses exported statement, c.localName ∈ references) ∧
    (statement.hasKeyword "type" → isTypescript)))

/-- A text is the copy of an import statement. If the statement binds no exported name, it is the
text of the statement with the path of the module in the place of the text that names it. If it
does, the statement is spelled with the other bindings. -/
structure IsCopy (exported : List String) (directory : String) (statement : Tree) (text : String) :
    Prop where
  whole : (∀ c ∈ importClauses statement, c.localName ∉ exported) →
    ∃ specifier before after, specifier? statement = some specifier ∧
      statement.text = before ++ (specifier.text ++ after) ∧
        text.toList = before ++ ((modulePathFrom directory specifier.toText).toList ++ after)
  partly : (∃ c ∈ importClauses statement, c.localName ∈ exported) →
    ∃ specifier, specifier? statement = some specifier ∧
      text = spelledImport (statement.hasKeyword "type") (leftClauses exported statement)
        (modulePathFrom directory specifier.toText)

/-! ## Records and statements -/

/-- **The record of an import statement** holds its bindings, the slice of its text, and where in
this text the module is named. -/
theorem importRecord?_slices {p : Placed} {s : List Char} {r : ImportRecord}
    (hp : p.IsIn byteWeight s) (h : importRecord? p = some r) :
    r.clauses = importClauses p.tree ∧ r.typeOnly = p.tree.hasKeyword "type" ∧
    ∃ specifier before after, specifier? p.tree = some specifier ∧
      r.source = specifier.toText ∧ p.tree.text = before ++ (specifier.text ++ after) ∧
      byteSlice s r.span.1 r.span.2 = p.tree.text ∧
      byteSlice s r.span.1 r.sourceSpan.1 = before ∧
      byteSlice s r.sourceSpan.2 r.span.2 = after := by
  unfold importRecord? at h
  obtain ⟨source, hsource, h⟩ := Option.bind_eq_some_iff.mp h
  obtain ⟨fragment, hfragment, h⟩ := Option.bind_eq_some_iff.mp h
  obtain rfl := Option.some.inj h
  have hpart : fragment.IsPart byteWeight p :=
    (Placed.isPart_of_mem_namedChildren (List.mem_of_find?_eq_some hfragment)).trans
      (Placed.isPart_of_child? hsource)
  obtain ⟨before, after, htext, hbefore, hafter⟩ := exists_slices hp hpart
  have hspecifier : specifier? p.tree = some fragment.tree := by
    unfold specifier?
    rw [← map_tree_child? byteWeight, hsource, Option.map_some, Option.bind_some,
      ← map_tree_namedChildren byteWeight, List.find?_map]
    have hfind : (source.namedChildren byteWeight).find?
        ((fun t : Tree => t.kind == .stringFragment) ∘ fun q : Placed => q.tree) =
          some fragment := hfragment
    rw [hfind, Option.map_some]
  exact ⟨rfl, rfl, fragment.tree, before, after, hspecifier, rfl, htext, byteSlice_span hp,
    hbefore, hafter⟩

/-- A statement that is copied as it stands has the path of the module in the place of the text
that names it, which is this path unless the text is relative. -/
lemma exists_copiedText {p : Placed} {s : List Char} {r : ImportRecord} (hp : p.IsIn byteWeight s)
    (h : importRecord? p = some r) (directory : String) :
    ∃ specifier before after, specifier? p.tree = some specifier ∧ r.source = specifier.toText ∧
      p.tree.text = before ++ (specifier.text ++ after) ∧
        (if r.isRelative then r.withModule s (r.modulePath directory)
          else String.ofList (byteSlice s r.span.1 r.span.2)).toList =
          before ++ ((r.modulePath directory).toList ++ after) := by
  obtain ⟨-, -, specifier, before, after, hspecifier, hsource, htext, hslice, hbefore, hafter⟩ :=
    importRecord?_slices hp h
  refine ⟨specifier, before, after, hspecifier, hsource, htext, ?_⟩
  split
  · rw [ImportRecord.withModule, hbefore, hafter, String.toList_ofList, List.append_assoc]
  · rename_i hrelative
    have hpath : r.modulePath directory = r.source := if_neg hrelative
    rw [hslice, String.toList_ofList, htext, hpath, hsource, Tree.toText, String.toList_ofList]

/-- The bindings of a record that are left are those of its statement. -/
lemma clauses_without {statement : Tree} {r : ImportRecord}
    (h : r.clauses = importClauses statement) (exported : List String) : (r.without exported).clauses = leftClauses exported statement := by
  unfold ImportRecord.without leftClauses
  rw [h]
  refine List.filter_congr fun c _ => ?_
  simp

/-- An import is copied exactly if its statement is needed. -/
lemma isCopied_iff {statement : Tree} {r : ImportRecord} (h : r.clauses = importClauses statement)
    (htype : r.typeOnly = statement.hasKeyword "type") (exported references : List String)
    (isTypescript : Bool) :
    r.IsCopied exported references isTypescript ↔
      NeedsCopy exported references isTypescript statement := by
  unfold ImportRecord.IsCopied NeedsCopy ImportRecord.bindings
  rw [clauses_without h, htype]
  simp only [List.mem_map, exists_exists_and_eq_and]

/-- **One copy**: an import statement is copied exactly if it is needed. -/
lemma copied?_statement {p : Placed} {s : List Char} {r : ImportRecord} (hp : p.IsIn byteWeight s)
    (h : importRecord? p = some r) (hr : r.bindings.Nodup) (exported references : List String)
    (directory : String) (isTypescript : Bool) :
    (r.copied? s exported references directory isTypescript = none ∧
      ¬ NeedsCopy exported references isTypescript p.tree) ∨
    ∃ text, r.copied? s exported references directory isTypescript = some text ∧
      NeedsCopy exported references isTypescript p.tree ∧
        IsCopy exported directory p.tree text := by
  obtain ⟨hclauses, htype, -⟩ := importRecord?_slices hp h
  obtain ⟨specifier, before, after, hspecifier, hsource, htext, hcopy⟩ :=
    exists_copiedText hp h directory
  have hiff := isCopied_iff hclauses htype exported references isTypescript
  rw [r.copied?_eq exported references hr]
  by_cases hneeded : NeedsCopy exported references isTypescript p.tree
  · right
    rw [if_pos (hiff.mpr hneeded)]
    refine ⟨_, rfl, hneeded, ?_, ?_⟩
    · intro hall
      have hall' : ∀ n ∈ r.bindings, n ∉ exported := by
        rw [ImportRecord.bindings, hclauses]
        exact List.forall_mem_map.mpr hall
      refine ⟨specifier, before, after, hspecifier, htext, ?_⟩
      rw [if_pos hall', ← hsource, ← r.modulePath_eq]
      exact hcopy
    · rintro ⟨c, hc, hexported⟩
      have hnot : ¬ ∀ n ∈ r.bindings, n ∉ exported := by
        intro hall
        refine hall c.localName ?_ hexported
        rw [ImportRecord.bindings, hclauses]
        exact List.mem_map_of_mem hc
      refine ⟨specifier, hspecifier, ?_⟩
      rw [if_neg hnot, clauses_without hclauses, htype, ← hsource, ← r.modulePath_eq]
  · left
    exact ⟨if_neg (hiff.not.mpr hneeded), hneeded⟩

/-- **All copies**: of some statements in a row those are copied that have a record and are
needed, in their order. -/
lemma forall₂_isCopy {statements : List Placed} {s : List Char}
    (hin : ∀ p ∈ statements, p.IsIn byteWeight s)
    (hnodup : ∀ r ∈ statements.filterMap importRecord?, r.bindings.Nodup)
    (exported references : List String) (directory : String) (isTypescript : Bool) :
    List.Forall₂ (IsCopy exported directory)
      (((statements.map (·.tree)).filter namesModule).filter
        (NeedsCopy exported references isTypescript ·))
      ((statements.filterMap importRecord?).filterMap
        (·.copied? s exported references directory isTypescript)) := by
  induction statements with
  | nil => exact .nil
  | cons p rest ih =>
    have hrest : ∀ r ∈ rest.filterMap importRecord?, r.bindings.Nodup := fun r hr => by
      refine hnodup r ?_
      rw [List.filterMap_cons]
      split
      · exact hr
      · exact List.mem_cons_of_mem _ hr
    have ih := ih (fun q hq => hin q (List.mem_cons_of_mem _ hq)) hrest
    have hnames : namesModule p.tree = (importRecord? p).isSome := by
      have heq := congrArg Option.isSome (importRecord?_eq p)
      rw [Option.isSome_map] at heq
      rw [heq]
      split
      · rename_i h
        exact h
      · rename_i h
        exact Bool.eq_false_iff.mpr h
    rw [List.map_cons]
    cases h : importRecord? p with
    | none =>
      rw [List.filter_cons_of_neg (by rw [hnames, h]; exact Bool.false_ne_true),
        List.filterMap_cons_none h]
      exact ih
    | some r =>
      rw [List.filter_cons_of_pos (by rw [hnames, h]; rfl), List.filterMap_cons_some h]
      have hr : r.bindings.Nodup := hnodup r (by rw [List.filterMap_cons_some h]; simp)
      rcases copied?_statement (hin p List.mem_cons_self) h hr exported references directory
        isTypescript with ⟨hnone, hnot⟩ | ⟨text, htext, hneeded, hcopy⟩
      · rw [List.filter_cons_of_neg (by simpa using hnot)]
        simp only [List.filterMap_cons, hnone]
        exact ih
      · rw [List.filter_cons_of_pos (by simpa using hneeded)]
        simp only [List.filterMap_cons, htext]
        exact .cons hcopy ih

/-- The import statements that a default export needs, of those that name their modules. -/
def neededImports (root : Tree) (exported references : List String) (isTypescript : Bool) :
    List Tree :=
  (recordedImports root).filter (NeedsCopy exported references isTypescript ·)

/-- The names that the copies of some import statements bind. -/
def leftNames (exported : List String) (statements : List Tree) : List String :=
  statements.flatMap fun statement => (leftClauses exported statement).map (·.localName)

lemma mem_map_leftClauses {exported : List String} {statement : Tree} {n : String} :
    n ∈ (leftClauses exported statement).map (·.localName) ↔
      n ∈ (importClauses statement).map (·.localName) ∧ n ∉ exported := by
  unfold leftClauses
  simp only [List.mem_map, List.mem_filter, decide_eq_true_eq]
  constructor
  · rintro ⟨c, ⟨hc, hn⟩, rfl⟩
    exact ⟨⟨c, hc, rfl⟩, hn⟩
  · rintro ⟨⟨c, hc, rfl⟩, hn⟩
    exact ⟨c, ⟨hc, hn⟩, rfl⟩

/-- The copies of needed statements bind what the statements bind, or less. -/
lemma leftNames_sublist (root : Tree) (exported references : List String) (isTypescript : Bool) :
    (leftNames exported (neededImports root exported references isTypescript)).Sublist
      ((recordedImports root).flatMap statementNames) := by
  unfold leftNames neededImports
  refine (List.filter_sublist.flatMap _).trans (List.Sublist.flatMap_right _ fun t ht => ?_)
  rw [statementNames_of_recorded ht]
  exact List.filter_sublist.map _

end Analysis

open Analysis in
/-- **Copied imports are exactly those needed.** Let the imports of a source bind no name twice.
Then the copied imports are, in their order, the copies of the import statements on record that
bind a referenced name which is not exported, without those for types in an override that has
none. The copies bind no exported name, and each referenced name that is not exported and is bound
by an import of the source is bound by exactly one of them. -/
theorem copiedImports_exact (source fileName : String) (includeTypes : Bool)
    (references : List String) (directory : String) (isTypescript : Bool)
    (h : ((analyzeExports source fileName includeTypes).imports.flatMap
      ImportRecord.bindings).Nodup) :
    let root := parse (Dialect.ofFileName fileName) source.toList
    let exports := analyzeExports source fileName includeTypes
    let needed := neededImports root exports.names references isTypescript
    exports.imports.map (fun r => (r.clauses, r.typeOnly)) =
      (recordedImports root).map (fun t => (importClauses t, t.hasKeyword "type")) ∧
    List.Forall₂ (IsCopy exports.names directory) needed
      (copiedImports exports source references directory isTypescript) ∧
    (∀ n ∈ leftNames exports.names needed, n ∉ exports.names) ∧
    ∀ n ∈ references, n ∉ exports.names → ∀ statement ∈ recordedImports root,
      n ∈ statementNames statement → (statement.hasKeyword "type" → isTypescript) →
        (leftNames exports.names needed).count n = 1 := by
  intro root exports needed
  refine ⟨analyzeTree_imports root includeTypes, ?_, ?_, ?_⟩
  · have hroot : (Placed.mk 0 root).IsIn byteWeight source.toList := Placed.isIn_parse _ _
    have hstatements : ∀ p ∈ ((Placed.mk 0 root).namedChildren byteWeight).filter
        (·.tree.kind == .importStatement), p.IsIn byteWeight source.toList := fun p hp =>
      (Placed.isPart_of_mem_namedChildren (List.mem_filter.mp hp).1).isIn hroot
    have hcopies := forall₂_isCopy hstatements (fun r hr => (List.nodup_flatMap.mp h).1 r hr)
      exports.names references directory isTypescript
    have htrees : (((Placed.mk 0 root).namedChildren byteWeight).filter
        (·.tree.kind == .importStatement)).map (·.tree) = root.namedChildren.filter isImport := by
      rw [← map_tree_statements, List.filter_map]
      rfl
    rw [htrees] at hcopies
    exact hcopies
  · intro n hn
    obtain ⟨statement, -, hn⟩ := List.mem_flatMap.mp hn
    exact (mem_map_leftClauses.mp hn).2
  · intro n hn hexported statement hstatement hbound htype
    have hnodup : (leftNames exports.names needed).Nodup := by
      refine (leftNames_sublist root _ _ _).nodup ?_
      rwa [← flatMap_bindings_imports root includeTypes]
    rw [statementNames_of_recorded hstatement] at hbound
    have hleft := mem_map_leftClauses.mpr ⟨hbound, hexported⟩
    have hneeded : statement ∈ needed := by
      obtain ⟨c, hc, rfl⟩ := List.mem_map.mp hleft
      exact List.mem_filter.mpr ⟨hstatement, decide_eq_true ⟨⟨c, hc, hn⟩, htype⟩⟩
    exact List.count_eq_one_of_mem hnodup (List.mem_flatMap.mpr ⟨statement, hneeded, hleft⟩)

/-- A source with imports of several sorts, behind characters of more than one byte. -/
def variedImports : String :=
  "// \u00fc\nimport R, \x7b a as b, c \x7d from './\u00e4/../x';\n" ++
    "import y from '../z';\nimport type \x7b P \x7d from 'p';\n" ++
      "export const c = 1;\nexport default b(R as P, y);\n"

open Analysis in
set_option maxRecDepth 10000 in
theorem copiedImports_exact_variedImports :
    ((analyzeExports variedImports "X.tsx" false).imports.flatMap ImportRecord.bindings).Nodup ∧
    copiedImports (analyzeExports variedImports "X.tsx" false) variedImports
        ["R", "P", "b", "y"] "m/src" false =
      ["import R, \x7b a as b \x7d from 'm/src/x';", "import y from 'm/z';"] ∧
    (leftNames (analyzeExports variedImports "X.tsx" false).names
      (neededImports (parse (Dialect.ofFileName "X.tsx") variedImports.toList)
        (analyzeExports variedImports "X.tsx" false).names ["R", "P", "b", "y"]
          false)).count "b" = 1 := by
  have hfacts : ((analyzeExports variedImports "X.tsx" false).imports.flatMap
      ImportRecord.bindings).Nodup ∧
    copiedImports (analyzeExports variedImports "X.tsx" false) variedImports
        ["R", "P", "b", "y"] "m/src" false =
      ["import R, \x7b a as b \x7d from 'm/src/x';", "import y from 'm/z';"] ∧
    "b" ∉ (analyzeExports variedImports "X.tsx" false).names ∧
    ∃ statement ∈ recordedImports (parse (Dialect.ofFileName "X.tsx") variedImports.toList),
      "b" ∈ statementNames statement ∧ statement.hasKeyword "type" = false := by decide +kernel
  obtain ⟨h, hcopies, hexported, statement, hstatement, hname, htype⟩ := hfacts
  have hexact := copiedImports_exact variedImports "X.tsx" false ["R", "P", "b", "y"] "m/src"
    false h
  refine ⟨h, hcopies, hexact.2.2.2 "b" (by decide) hexported statement hstatement hname ?_⟩
  intro htrue
  rw [htype] at htrue
  cases htrue

end ThemeOverride
