import ThemeOverride.Proofs.Override.Lists
import ThemeOverride.Proofs.Override.Pieces
import ThemeOverride.Proofs.Override.Scaffolds

/-!
# Clauses and imports as scripts

The clauses of an override that pass names on, and the import of its source, are read as what they
list. Its imports of style files are read as imports.

## Main results

* `ThemeOverride.stands_passClause` — a clause that passes names on stands, and exports them.
* `ThemeOverride.stands_sourceImport` — the import of the source stands.
* `ThemeOverride.stands_fileImport` — so does the import of a style file.
-/

namespace ThemeOverride

open Script Analysis Pattern

variable {dialect : Dialect}

/-! ## Listed names -/

/-- How a name is written in the template of a list. -/
def listedWord (name : String) : String := if name = "type" then "type" else "\ue004"

lemma listedWord_mem (name : String) : listedWord name ∈ ["type", "\ue004"] := by
  unfold listedWord
  split <;> simp

section

variable {gap : List Char} {name path : String} (hname : isPlainName name) (hpath : isPath path)
  (hgap : ∀ c ∈ gap, isSeparator c) (rest : List Char)

lemma expand_listedWord :
    (filling hgap hname hpath rest).expand (listedWord name).toList = name.toList := by
  by_cases htype : name = "type"
  · subst htype
    exact Filling.expand_ordinary _ (by decide)
  · rw [listedWord, if_neg htype]
    change (listedName name).toList ++ [] = name.toList
    rw [listedName, if_neg htype, List.append_nil]

end

/-- A word has no quotes at its ends. -/
lemma unquoted_of_isWord {s : List Char} (h : isWord s) : unquoted s = s := by
  have hquote : ∀ c ∈ s, (c == '\x27' || c == '\x22') = false := by
    intro c hc
    have hpart := isNamePart_of_mem_word h hc
    rw [Bool.or_eq_false_iff, beq_eq_false_iff_ne, beq_eq_false_iff_ne]
    exact ⟨ne_of_isNamePart hpart (by decide), ne_of_isNamePart hpart (by decide)⟩
  have hdrop : ∀ t : List Char, (∀ c ∈ t, (c == '\x27' || c == '\x22') = false) →
      t.dropWhile (fun c => c == '\x27' || c == '\x22') = t := by
    intro t ht
    cases t with
    | nil => rfl
    | cons c t => rw [List.dropWhile_cons_of_neg (by simp [ht c List.mem_cons_self])]
  unfold unquoted
  dsimp only
  rw [hdrop s hquote, hdrop s.reverse (by simpa using hquote), List.reverse_reverse]

/-! ## Exported names -/

/-- The form of a name in a clause that passes names on. -/
def exportedForm : Form := Form.specifier .exportSpecifier Form.exportedName Form.exportedName

/-- A tree lists a name in a clause with a module: the name is exported, as a type or not. -/
def ListsExport (name : String) (t : Tree) : Prop :=
  ∀ typeClause kinds, specifierExport? typeClause true kinds t =
    some (name, if typeClause then .type else .reference)

/-- Whether a template is read as one listed name, as it is written. -/
def listsPlainly (word : String) : List Tree → Bool
  | [t] =>
    t.kind == .exportSpecifier && t.isPlainlyUntyped && t.hasPlainTokens && !t.hasKeyword "type" &&
      match t.child? .alias, t.child? .name with
      | none, some n => n.text == word.toList
      | _, _ => false
  | _ => false

lemma listsExport_fill {F : Filling} {word name : String} {t : Tree} (h : listsPlainly word [t])
    (hname : isPlainName name) (hword : F.expand word.toList = name.toList) :
    ListsExport name (t.fill F) := by
  unfold listsPlainly at h
  simp only [Bool.and_eq_true, Bool.not_eq_true'] at h
  obtain ⟨⟨⟨-, htokens⟩, htype⟩, hnames⟩ := h
  have hdefault : (name == "default") = false := by
    unfold isPlainName at hname
    simp only [Bool.and_eq_true, Bool.not_eq_true'] at hname
    rw [beq_eq_false_iff_ne]
    rintro rfl
    simp at hname
  intro typeClause kinds
  unfold specifierExport?
  rw [Tree.child?_fill, Tree.child?_fill, Tree.hasKeyword_fill F htokens, htype]
  split at hnames
  · rename_i n halias hn
    have htext : String.ofList (unquoted (n.fill F).text) = name := by
      rw [Tree.text_fill, beq_iff_eq.mp hnames, hword,
        unquoted_of_isWord (isWord_of_isPlainName hname), String.ofList_toList]
    simp only [halias, hn, Option.map_none, Option.map_some, Option.none_or, htext, hdefault,
      Bool.false_eq_true, if_false, Bool.or_false, if_true]
    cases typeClause <;> rfl
  · cases hnames

lemma readsAs_exported : ∀ dialect ∈ [Dialect.markup, .typed], ∀ word ∈ ["type", "\ue004"],
    ∀ stop ∈ [",", " \x7d"],
      readsAs dialect exportedForm ('\u3000' :: (word.toList ++ (stop.toList ++ ['\ue003'])))
        (listsPlainly word) (stop.toList ++ ['\ue003']) := by
  decide +kernel

/-- **A name in a clause** is read as itself. -/
lemma readsItem_exported {name : String} (hname : isPlainName name) :
    ReadsItem dialect exportedForm name fun t =>
      t.kind = .exportSpecifier ∧ ListsExport name t := by
  intro stop hstop gap rest hgap
  have hdialect : dialect ∈ [Dialect.markup, .typed] := by cases dialect <;> simp
  have hordinary : ∀ stop ∈ [",", " \x7d"], stop.toList.all isOrdinary := by decide
  obtain ⟨trees, hcheck, hread⟩ := settles_of_readsAs (filling hgap hname isPath_a rest)
    (readsAs_exported dialect hdialect (listedWord name) (listedWord_mem name) stop hstop)
  rw [Filling.expand_cons, Filling.expand_append, expand_listedWord,
    expand_before _ _ _ _ (hordinary stop hstop)] at hread
  match trees, hcheck with
  | [t], hcheck =>
    refine ⟨_, hread, ⟨?_, listsExport_fill hcheck hname (expand_listedWord _ _ _ _)⟩, ?_⟩
    · unfold listsPlainly at hcheck
      simp only [Bool.and_eq_true] at hcheck
      rw [Tree.kind_fill]
      exact beq_iff_eq.mp hcheck.1.1.1.1
    · unfold listsPlainly at hcheck
      simp only [Bool.and_eq_true] at hcheck
      exact Tree.isUntyped_fill _ hcheck.1.1.1.2

/-! ## Imported names -/

/-- The form of a name in an import. -/
def importedForm : Form := Form.specifier .importSpecifier Form.exportedName (Form.name .identifier)

/-- Whether a template is read as one tree without types. -/
def importsPlainly : List Tree → Bool
  | [t] => t.kind == .importSpecifier && t.isPlainlyUntyped
  | _ => false

lemma readsAs_imported : ∀ dialect ∈ [Dialect.markup, .typed], ∀ word ∈ ["type", "\ue004"],
    ∀ renamed ∈ ["", " as \ue001"], ∀ stop ∈ [",", " \x7d"],
      readsAs dialect importedForm
        ('\u3000' :: ((word ++ renamed).toList ++ (stop.toList ++ ['\ue003'])))
        importsPlainly (stop.toList ++ ['\ue003']) := by
  decide +kernel

/-- A specifier that an override writes: of an export with a plain name, under its own name or under
the one for its source. -/
structure Specifier.IsPlain (s : Specifier) : Prop where
  name : isPlainName s.name
  renamed : ∀ localName ∈ s.alias?, localName = sourceLocalName s.name

/-- **A name in an import** is read as itself. -/
lemma readsItem_imported {s : Specifier} (hs : s.IsPlain) :
    ReadsItem dialect importedForm s.text fun t => t.kind = .importSpecifier ∧ True := by
  intro stop hstop gap rest hgap
  have hdialect : dialect ∈ [Dialect.markup, .typed] := by cases dialect <;> simp
  have hordinary : ∀ stop ∈ [",", " \x7d"], stop.toList.all isOrdinary := by decide
  obtain ⟨renamed, hrenamed, htext⟩ : ∃ renamed ∈ ["", " as \ue001"],
      (filling hgap hs.name isPath_a rest).expand (listedWord s.name ++ renamed).toList =
        s.text.toList := by
    unfold Specifier.text
    cases halias : s.alias? with
    | none =>
      refine ⟨"", by simp, ?_⟩
      rw [String.append_empty, expand_listedWord]
    | some localName =>
      refine ⟨" as \ue001", by simp, ?_⟩
      obtain rfl := hs.renamed localName (Option.mem_def.mpr halias)
      have has : " as \ue001".toList = " as ".toList ++ "\ue001".toList := by decide
      rw [String.toList_append, Filling.expand_append, expand_listedWord, has,
        Filling.expand_append, Filling.expand_ordinary _ (by decide), expand_localName]
      simp
  obtain ⟨trees, hcheck, hread⟩ := settles_of_readsAs (filling hgap hs.name isPath_a rest)
    (readsAs_imported dialect hdialect (listedWord s.name) (listedWord_mem s.name) renamed hrenamed
      stop hstop)
  rw [Filling.expand_cons, Filling.expand_append, htext,
    expand_before _ _ _ _ (hordinary stop hstop)] at hread
  match trees, hcheck with
  | [t], hcheck =>
    unfold importsPlainly at hcheck
    rw [Bool.and_eq_true, beq_iff_eq] at hcheck
    exact ⟨_, hread, ⟨(t.kind_fill _).trans hcheck.1, trivial⟩, Tree.isUntyped_fill _ hcheck.2⟩

/-! ## Statements with a list -/

/-- Whether a keyword is among some trees. -/
def hasWord (trees : List Tree) (w : String) : Bool :=
  trees.any fun t => t.kind == .token && t.text == w.toList

lemma hasWord_append (xs ys : List Tree) (w : String) :
    hasWord (xs ++ ys) w = (hasWord xs w || hasWord ys w) := List.any_append

/-- The keywords that say what a statement with a list is. -/
def frameWords : List String := ["default", "type", "typeof"]

/-- Some trees are the keywords of a statement with a list, its module or its end: of the keywords
that say what it is, they are just the given ones, and its source is among them or not. -/
structure Frames (words : List String) (hasSource : Bool) (trees : List Tree) : Prop where
  notExtra : ∀ t ∈ trees, t.kind.isExtra = false
  notClause : ∀ t ∈ trees, t.kind ≠ .exportClause
  notDeclaration : ∀ t ∈ trees, t.field ≠ some .declaration
  untyped : ∀ t ∈ trees, t.isUntyped
  keywords : ∀ w ∈ frameWords, hasWord trees w = words.contains w
  source : trees.any (·.field == some .source) = hasSource

lemma Frames.append {words more : List String} {hasSource hasSource' : Bool} {xs ys : List Tree}
    (h : Frames words hasSource xs) (h' : Frames more hasSource' ys) :
    Frames (words ++ more) (hasSource || hasSource') (xs ++ ys) where
  notExtra := List.forall_mem_append.mpr ⟨h.notExtra, h'.notExtra⟩
  notClause := List.forall_mem_append.mpr ⟨h.notClause, h'.notClause⟩
  notDeclaration := List.forall_mem_append.mpr ⟨h.notDeclaration, h'.notDeclaration⟩
  untyped := List.forall_mem_append.mpr ⟨h.untyped, h'.untyped⟩
  keywords w hw := by
    rw [hasWord_append, h.keywords w hw, h'.keywords w hw, List.contains_append]
  source := by rw [List.any_append, h.source, h'.source]

/-- Whether all trees made from some templates frame a list. -/
def framesPlainly (words : List String) (hasSource : Bool) (trees : List Tree) : Bool :=
  trees.all (fun t => !t.kind.isExtra && t.kind != .exportClause && t.field != some .declaration &&
    t.isPlainlyUntyped && (t.kind != .token || t.text.all isOrdinary)) &&
  frameWords.all (fun w => hasWord trees w == words.contains w) &&
  trees.any (·.field == some .source) == hasSource

section Fill

variable {words : List String} {hasSource : Bool}

lemma frames_fill (F : Filling) {trees : List Tree} (h : framesPlainly words hasSource trees) :
    Frames words hasSource (trees.map (Tree.fill F)) := by
  unfold framesPlainly at h
  simp only [Bool.and_eq_true, List.all_eq_true, Bool.not_eq_true', bne_iff_ne, beq_iff_eq] at h
  obtain ⟨⟨hall, hwords⟩, hsource⟩ := h
  refine ⟨?_, ?_, ?_, ?_, fun w hw => ?_, ?_⟩
  · rw [List.forall_mem_map]
    intro t ht
    rw [Tree.kind_fill]
    exact (hall t ht).1.1.1.1
  · rw [List.forall_mem_map]
    intro t ht
    rw [Tree.kind_fill]
    exact (hall t ht).1.1.1.2
  · rw [List.forall_mem_map]
    intro t ht
    rw [Tree.field_fill]
    exact (hall t ht).1.1.2
  · rw [List.forall_mem_map]
    exact fun t ht => Tree.isUntyped_fill F (hall t ht).1.2
  · -- the keywords of some trees are those of a node around them
    have hplain : (Script.Tree.node none .program trees).hasPlainTokens := by
      unfold Tree.hasPlainTokens
      rw [List.all_eq_true]
      exact fun t ht => (hall t ht).2
    have hkeyword := Tree.hasKeyword_fill F hplain w
    rw [Tree.fill_node] at hkeyword
    exact hkeyword.trans (hwords w hw)
  · rw [List.any_map, ← hsource]
    simp [Function.comp_def]

/-- A form that reads the frame of a list in a template reads it in every text made from it. -/
lemma settles_frame {form : Form} {front text stop : List Char} {path : String}
    (h : readsAs dialect form ('\u3000' :: (front ++ (stop ++ ['\ue003'])))
      (framesPlainly words hasSource) (stop ++ ['\ue003']))
    (hstop : stop.all isOrdinary) {gap : List Char} (hgap : ∀ c ∈ gap, isSeparator c)
    (hpath : isPath path) (rest : List Char)
    (hfront : (filling hgap isPlainName_a hpath rest).expand front = text) :
    ∃ trees, Settles (grammar dialect) [] form (gap ++ (text ++ (stop ++ rest)))
      (some (trees, stop ++ rest)) ∧ Frames words hasSource trees := by
  obtain ⟨trees, hframes, hread⟩ := settles_of_readsAs (filling hgap isPlainName_a hpath rest) h
  rw [Filling.expand_cons, Filling.expand_append, hfront, expand_before _ _ _ _ hstop] at hread
  exact ⟨_, hread, frames_fill _ hframes⟩

end Fill

section Clause

variable {before after cs : List Tree} {names : List String} {typesAlone : Bool}

/-- A keyword of a statement with a list is one of what stands around the list. -/
lemma hasKeyword_around {kind : Kind} {list : Tree} (hlist : list.kind ≠ .token) (w : String) :
    (Script.Tree.node none kind (before ++ list :: after)).hasKeyword w =
      hasWord (before ++ after) w := by
  change hasWord (before ++ list :: after) w = _
  have hnot : (list.kind == Kind.token) = false := beq_eq_false_iff_ne.mpr hlist
  rw [hasWord_append, hasWord_append]
  unfold hasWord
  rw [List.any_cons, hnot, Bool.false_and, Bool.false_or]

/-- The names of a clause with a module are exported. -/
lemma filterMap_listed (h : Lists .exportSpecifier ListsExport names cs)
    (kinds : List (String × ExportKind)) :
    ((Script.Tree.node none .exportClause cs).namedChildren.filter (·.kind == .exportSpecifier)).filterMap
        (specifierExport? typesAlone true kinds) =
      names.map fun n => (n, if typesAlone then .type else .reference) := by
  have hfilter : (Script.Tree.node none .exportClause cs).namedChildren.filter
      (·.kind == .exportSpecifier) = cs.filter (·.kind == .exportSpecifier) := by
    unfold Tree.namedChildren
    rw [List.filter_filter]
    refine List.filter_congr fun t _ => ?_
    cases hkind : t.kind == .exportSpecifier with
    | false => rfl
    | true =>
      rw [beq_iff_eq.mp hkind]
      rfl
  rw [hfilter]
  have hitems := h.items
  generalize cs.filter (·.kind == .exportSpecifier) = specifiers at hitems
  clear hfilter h
  induction hitems with
  | nil => rfl
  | cons hlists _ ih => rw [List.filterMap_cons, hlists, ih, List.map_cons]

/-- **A clause with a module** exports the names it lists, as types or not. -/
theorem tells_clause (hbefore : Frames (if typesAlone then ["type"] else []) false before)
    (hafter : Frames [] true after) (hlists : Lists .exportSpecifier ListsExport names cs) :
    Tells typesAlone (names.map fun n => (n, if typesAlone then .type else .reference))
      [.node none .exportStatement (before ++ .node none .exportClause cs :: after)] := by
  have hframes := hbefore.append hafter
  have hkeyword : ∀ w ∈ frameWords, (Script.Tree.node none .exportStatement
      (before ++ .node none .exportClause cs :: after)).hasKeyword w =
        (if typesAlone then ["type"] else []).contains w := by
    intro w hw
    rw [hasKeyword_around (by simp [Tree.kind]), hframes.keywords w hw, List.append_nil]
  have htype := hkeyword "type" (by decide)
  have htypes : (if typesAlone then ["type"] else []).contains "type" = typesAlone := by
    cases typesAlone <;> rfl
  have hnotDefault : isDefaultExport
      (.node none .exportStatement (before ++ .node none .exportClause cs :: after)) = false := by
    unfold isDefaultExport
    rw [hkeyword "default" (by decide)]
    cases typesAlone <;> rfl
  -- the clause is the only tree of its kind, and nothing is declared
  have hclause : (Script.Tree.node none .exportStatement
      (before ++ .node none .exportClause cs :: after)).namedChildren.find?
        (·.kind == .exportClause) = some (.node none .exportClause cs) := by
    unfold Tree.namedChildren
    rw [Tree.children, List.filter_append, List.filter_cons_of_pos (by rfl), List.find?_append,
      List.find?_eq_none.mpr, Option.none_or, List.find?_cons_of_pos (by rfl)]
    intro t ht
    simpa using hbefore.notClause t (List.mem_filter.mp ht).1
  have hdeclaration : (Script.Tree.node none .exportStatement
      (before ++ .node none .exportClause cs :: after)).child? .declaration = none := by
    unfold Tree.child?
    rw [Tree.children, List.find?_eq_none]
    intro t ht
    rcases List.mem_append.mp ht with ht | ht
    · simpa using hbefore.notDeclaration t ht
    · rcases List.mem_cons.mp ht with rfl | ht
      · simp [Tree.field]
      · simpa using hafter.notDeclaration t ht
  have hmodule : ((Script.Tree.node none .exportStatement
      (before ++ .node none .exportClause cs :: after)).child? .source).isSome := by
    unfold Tree.child?
    rw [List.isSome_find?, Tree.children, List.any_append, List.any_cons, hafter.source,
      Bool.or_true, Bool.or_true]
  refine ⟨fun kinds => ?_, by simpa using hnotDefault, fun htyped => ?_⟩
  · rw [List.flatMap_singleton]
    unfold exportedNames
    rw [hnotDefault, hdeclaration]
    simp only [Tree.kind, bne_self_eq_false, Bool.or_false, Bool.false_eq_true, if_false]
    unfold listedNames
    rw [hclause, htype, htypes, hmodule]
    exact filterMap_listed hlists kinds
  · subst htyped
    rw [List.forall_mem_singleton, Tree.isUntyped_node_iff]
    constructor
    · unfold Tree.isTypeSyntax
      rw [htype, hkeyword "typeof" (by decide)]
      rfl
    · intro t ht
      rcases List.mem_append.mp ht with ht | ht
      · exact hbefore.untyped t ht
      · rcases List.mem_cons.mp ht with rfl | ht
        · exact Tree.isUntyped_node_iff.mpr ⟨rfl, hlists.untyped⟩
        · exact hafter.untyped t ht

/-- An import with a list that says nothing of types exports nothing and has no types. -/
theorem tells_import {typed : Bool} {list : Tree} (hbefore : Frames [] false before)
    (hafter : Frames [] true after) (hkind : list.kind ≠ .token) (huntyped : list.isUntyped) :
    Tells typed [] [.node none .importStatement (before ++ list :: after)] := by
  have hframes := hbefore.append hafter
  refine .of_import rfl fun _ => Tree.isUntyped_node_iff.mpr ⟨?_, ?_⟩
  · have hkeyword : ∀ w ∈ frameWords,
        (Script.Tree.node none .importStatement (before ++ list :: after)).hasKeyword w =
          false := by
      intro w hw
      rw [hasKeyword_around hkind, hframes.keywords w hw]
      rfl
    unfold Tree.isTypeSyntax
    rw [hkeyword "type" (by decide), hkeyword "typeof" (by decide)]
    rfl
  · exact List.forall_mem_append.mpr
      ⟨hbefore.untyped, List.forall_mem_cons.mpr ⟨huntyped, hafter.untyped⟩⟩

end Clause

/-! ## Clauses that pass names on -/

variable (dialect) in
/-- The module of a list, up to its semicolon. -/
lemma settles_from {path : String} (hpath : isPath path) (next : List Char) :
    ∃ trees, Settles (grammar dialect) [] Form.fromClause (moduleEnd path ++ next)
      (some (trees, ";".toList ++ next)) ∧ Frames [] true trees := by
  have hread : readsAs dialect Form.fromClause
      ('\u3000' :: (" from '\ue002'".toList ++ (";".toList ++ ['\ue003'])))
      (framesPlainly [] true) (";".toList ++ ['\ue003']) := by
    cases dialect <;> rfl
  have htext : moduleEnd path ++ next =
      [] ++ ((" from '".toList ++ (path.toList ++ "'".toList)) ++ (";".toList ++ next)) := by
    have hend : "';".toList = "'".toList ++ ";".toList := by decide
    unfold moduleEnd
    rw [hend]
    simp only [List.append_assoc, List.nil_append]
  rw [htext]
  refine settles_frame hread rfl (by simp) hpath next ?_
  have hpieces : " from '\ue002'".toList = " from '".toList ++ ("\ue002".toList ++ "'".toList) := by
    decide
  have hpath' : (filling isSeparator_nil isPlainName_a hpath next).expand "\ue002".toList =
      path.toList := List.append_nil _
  rw [hpieces, Filling.expand_append, Filling.expand_append, hpath',
    Filling.expand_ordinary _ (by decide), Filling.expand_ordinary _ (by decide)]

/-- A form that reads a semicolon reads it before any text. -/
lemma settles_semicolon {form : Form}
    (h : readsAs dialect form (";".toList ++ ['\ue003']) (framesPlainly [] false) ['\ue003'])
    (next : List Char) :
    ∃ trees, Settles (grammar dialect) [] form (";".toList ++ next) (some (trees, next)) ∧
      Frames [] false trees :=
  exists_settles h rfl (fun F _ => frames_fill F) next

/-- The ways to read an export that are tried before one that lists names. -/
def defaultExport : Form :=
  .seq (.many (Form.rule .decorator)) (.seq (Form.leadingWord "export") (.seq (Form.word "default")
    (.either (.field .declaration (Form.rule .declaration))
      (.seq (.field .value (Form.rule (.expression .statement))) (Form.terminated true)))))

/-- An export of a declaration. -/
def declarationExport : Form :=
  .seq (.many (Form.rule .decorator)) (.seq (Form.leadingWord "export")
    (.field .declaration (Form.rule .declaration)))

/-- What an export without a list takes from a module: all, or all under one name. -/
def wholeModule : Form :=
  .seq (Form.mark "*") Form.fromClause

def namedModule : Form :=
  .seq (.node .namespaceExport (.seq (Form.mark "*") (.seq (Form.word "as") Form.exportedName)))
    Form.fromClause

/-- A clause, perhaps with its module. -/
def clauseExport : Form := .seq Form.exportClause (Form.optional Form.fromClause)

/-- A clause is read where it is no default export and no declaration. -/
lemma settles_exportStatement {s t u v : List Char} {before list final : List Tree}
    (hdefault : Settles (grammar dialect) [] defaultExport s none)
    (hdeclaration : Settles (grammar dialect) [] declarationExport s none)
    (hstart : Settles (grammar dialect) [] (Form.leadingWord "export") s (some (before, t)))
    (hlist : Settles (grammar dialect) [] (.either wholeModule (.either namedModule
      (.either clauseExport (.seq (Form.word "type") clauseExport)))) t (some (list, u)))
    (hend : Settles (grammar dialect) [] (Form.terminated false) u (some (final, v))) :
    Settles (grammar dialect) [] (.rule .statement) s
      (some (wrap .exportStatement (before ++ (list ++ final)), v)) := by
  have hexport : Settles (grammar dialect) [] Form.exportStatement s
      (some (wrap .exportStatement (before ++ (list ++ final)), v)) :=
    (Settles.either_right hdefault (.either_right hdeclaration
      (.either_left (hstart.seq (hlist.seq hend))))).node
  exact .rule (.either_left hexport)

/-- Trees of which none may stand between any two tokens are wrapped in one node. -/
lemma wrap_eq {kind : Kind} {trees : List Tree} (h : ∀ t ∈ trees, t.kind.isExtra = false) :
    wrap kind trees = [.node none kind trees] := by
  unfold wrap
  cases trees with
  | nil => rfl
  | cons t trees =>
    have ht := h t List.mem_cons_self
    rw [List.takeWhile_cons_of_neg (by simp [ht]), List.dropWhile_cons_of_neg (by simp [ht]),
      List.nil_append]

lemma Lists.wrap {α : Type} {kind node : Kind} {tells : α → Tree → Prop} {items : List α}
    {trees : List Tree} (h : Lists kind tells items trees) (hkind : kind.isExtra = false) :
    Script.wrap node trees = [.node none node trees] := by
  refine wrap_eq fun t ht => ?_
  rcases h.kinds t ht with htoken | hitem
  · rw [htoken]
    rfl
  · rw [hitem]
    exact hkind

/-- The words before a list that is passed on, as types or not, with what they begin. -/
lemma settles_clauseStart (typesAlone : Bool) {gap rest u v : List Char}
    (hgap : ∀ c ∈ gap, isSeparator c) {list final : List Tree}
    (hclause : Settles (grammar dialect) [] clauseExport (" \x7b".toList ++ rest) (some (list, u)))
    (hfinal : Settles (grammar dialect) [] (Form.terminated false) u (some (final, v))) :
    ∃ before, Settles (grammar dialect) [] (.rule .statement)
        (gap ++ ((if typesAlone then "export type" else "export").toList ++
          (" \x7b".toList ++ rest)))
        (some (wrap .exportStatement (before ++ (list ++ final)), v)) ∧
      Frames (if typesAlone then ["type"] else []) false before := by
  cases typesAlone with
  | false =>
    have hstart : readsAs dialect (Form.leadingWord "export")
        ('\u3000' :: ("export".toList ++ (" \x7b".toList ++ ['\ue003']))) (framesPlainly [] false)
        (" \x7b".toList ++ ['\ue003']) := by
      cases dialect <;> rfl
    have hdefault : failsOn dialect defaultExport
        ('\u3000' :: ("export \x7b".toList ++ ['\ue003'])) := by
      cases dialect <;> rfl
    have hdeclaration : failsOn dialect declarationExport
        ('\u3000' :: ("export \x7b".toList ++ ['\ue003'])) := by
      cases dialect <;> rfl
    have hwhole : failsOn dialect wholeModule ('\u3000' :: (" \x7b".toList ++ ['\ue003'])) := by
      cases dialect <;> rfl
    have hnamed : failsOn dialect namedModule ('\u3000' :: (" \x7b".toList ++ ['\ue003'])) := by
      cases dialect <;> rfl
    obtain ⟨before, hbefore, hframes⟩ := settles_frame hstart rfl hgap isPath_a rest
      (Filling.expand_ordinary _ (by decide))
    refine ⟨before, ?_, hframes⟩
    refine settles_exportStatement ?_ ?_ hbefore ?_ hfinal
    · exact settles_none hdefault rfl hgap rest
    · exact settles_none hdeclaration rfl hgap rest
    · exact .either_right (settles_none hwhole rfl isSeparator_nil rest)
        (.either_right (settles_none hnamed rfl isSeparator_nil rest) hclause.either_left)
  | true =>
    have hstart : readsAs dialect (Form.leadingWord "export")
        ('\u3000' :: ("export".toList ++ (" type \x7b".toList ++ ['\ue003'])))
        (framesPlainly [] false) (" type \x7b".toList ++ ['\ue003']) := by
      cases dialect <;> rfl
    have hword : readsAs dialect (Form.word "type")
        ('\u3000' :: (" type".toList ++ (" \x7b".toList ++ ['\ue003'])))
        (framesPlainly ["type"] false) (" \x7b".toList ++ ['\ue003']) := by
      cases dialect <;> rfl
    have hdefault : failsOn dialect defaultExport
        ('\u3000' :: ("export type \x7b".toList ++ ['\ue003'])) := by
      cases dialect <;> rfl
    have hdeclaration : failsOn dialect declarationExport
        ('\u3000' :: ("export type \x7b".toList ++ ['\ue003'])) := by
      cases dialect <;> rfl
    have hwhole : failsOn dialect wholeModule
        ('\u3000' :: (" type \x7b".toList ++ ['\ue003'])) := by
      cases dialect <;> rfl
    have hnamed : failsOn dialect namedModule
        ('\u3000' :: (" type \x7b".toList ++ ['\ue003'])) := by
      cases dialect <;> rfl
    have hnames : failsOn dialect clauseExport
        ('\u3000' :: (" type \x7b".toList ++ ['\ue003'])) := by
      cases dialect <;> rfl
    obtain ⟨before, hbefore, hframes⟩ := settles_frame hstart rfl hgap isPath_a rest
      (Filling.expand_ordinary _ (by decide))
    obtain ⟨type, htype, htypeFrames⟩ := settles_frame hword rfl isSeparator_nil isPath_a rest
      (Filling.expand_ordinary _ (by decide))
    refine ⟨before ++ type, ?_, hframes.append htypeFrames⟩
    have hstatement := settles_exportStatement (settles_none hdefault rfl hgap rest)
      (settles_none hdeclaration rfl hgap rest) hbefore
      (.either_right (settles_none hwhole rfl isSeparator_nil rest)
        (.either_right (settles_none hnamed rfl isSeparator_nil rest)
          (.either_right (settles_none hnames rfl isSeparator_nil rest) (htype.seq hclause))))
      hfinal
    rw [List.append_assoc] at hstatement ⊢
    exact hstatement

/-- **A clause that passes names on** stands, and exports them. -/
theorem stands_passClause (typesAlone : Bool) {names : List String} {path : String}
    (hne : names ≠ []) (hnames : ∀ n ∈ names, isPlainName n) (hpath : isPath path) :
    Stands dialect (OverridePlan.braced (if typesAlone then "export type" else "export")
        names path).toList
      (Tells typesAlone (names.map fun n => (n, if typesAlone then .type else .reference))) := by
  intro gap next hgap _
  obtain ⟨source, hsource, hsourceFrames⟩ := settles_from dialect hpath next
  have hend : readsAs dialect (Form.terminated false) (";".toList ++ ['\ue003'])
      (framesPlainly [] false) ['\ue003'] := by
    cases dialect <;> rfl
  obtain ⟨final, hfinal, hfinalFrames⟩ := settles_semicolon hend next
  have hfails : failsOn dialect exportedForm ('\u3000' :: ("\n\x7d".toList ++ ['\ue003'])) := by
    cases dialect <;> rfl
  have htail : Settles (grammar dialect) [] exportedForm
      ("\n\x7d".toList ++ (moduleEnd path ++ next)) none :=
    settles_none hfails rfl isSeparator_nil _
  have hitems : ∀ n ∈ names, ReadsItem dialect exportedForm (id n) fun t =>
      t.kind = .exportSpecifier ∧ ListsExport n t := fun n hn => readsItem_exported (hnames n hn)
  obtain ⟨list, hlist, hlists⟩ := exists_list (by decide) hne htail hitems
  rw [List.map_id] at hlist
  have hclause : Settles (grammar dialect) [] clauseExport
      (" \x7b".toList ++ (listBody names ++ (listEnd names ++ (moduleEnd path ++ next))))
      (some ([.node none .exportClause list] ++ source, ";".toList ++ next)) := by
    rw [← hlists.wrap (by decide)]
    exact hlist.node.seq hsource.either_left
  -- the words before the list
  obtain ⟨before, hstatement, hbefore⟩ := settles_clauseStart typesAlone hgap hclause
    hfinal
  have hframes := hsourceFrames.append hfinalFrames
  rw [List.append_nil, Bool.or_false] at hframes
  refine ⟨_, ?_, tells_clause hbefore hframes hlists⟩
  rw [toList_braced_append]
  have hrow := Row.single hstatement
  rw [wrap_eq] at hrow
  · rw [List.append_assoc [_], List.singleton_append] at hrow
    exact hrow
  · refine List.forall_mem_append.mpr ⟨hbefore.notExtra, List.forall_mem_append.mpr ⟨?_, ?_⟩⟩
    · exact List.forall_mem_cons.mpr ⟨rfl, hsourceFrames.notExtra⟩
    · exact hfinalFrames.notExtra

/-! ## The import of the source -/

/-- An import of a module as a whole, under one name. -/
def namespaceForm : Form :=
  .node .namespaceImport (.seq (Form.mark "*") (.seq (Form.word "as") (Form.name .identifier)))

/-- The end of an import: perhaps what is known of the module, and a semicolon. -/
def importEnd : Form :=
  .seq (Form.optional (.node .importAttribute (.seq (Form.goesOn Form.line)
      (.seq (.either (Form.word "with") (Form.word "assert"))
        (.node .object (Form.braces (Form.commaHoles (Form.rule .objectMember))))))))
    (Form.terminated false)

/-- An import that lists names is read where it is no export and says nothing of types. -/
lemma settles_importStatement {s t u v w : List Char} {before list source final : List Tree}
    (hexport : Settles (grammar dialect) [] Form.exportStatement s none)
    (hstart : Settles (grammar dialect) [] (Form.word "import") s (some (before, t)))
    (htype : Settles (grammar dialect) [] (.either (Form.word "type") (Form.word "typeof")) t none)
    (hnamespace : Settles (grammar dialect) [] namespaceForm t none)
    (hlist : Settles (grammar dialect) [] Form.namedImports t (some (list, u)))
    (hsource : Settles (grammar dialect) [] Form.fromClause u (some (source, v)))
    (hend : Settles (grammar dialect) [] importEnd v (some (final, w))) :
    Settles (grammar dialect) [] (.rule .statement) s
      (some (wrap .importStatement (before ++ ((wrap .importClause list ++ source) ++ final)),
        w)) := by
  have hclause : Settles (grammar dialect) [] Form.importClause t
      (some (wrap .importClause list, u)) :=
    (Settles.either_left (.either_right hnamespace hlist)).node
  have himport : Settles (grammar dialect) [] Form.importStatement s
      (some (wrap .importStatement (before ++ ((wrap .importClause list ++ source) ++ final)),
        w)) :=
    (hstart.seq (.either_right htype.seq_left_none
      ((Settles.either_left (hclause.seq hsource)).seq hend))).node
  exact .rule (.either_right hexport (.either_left himport))

/-- **An import that lists names** stands. -/
theorem stands_sourceImport {typed : Bool} {specifiers : List Specifier} {path : String}
    (hne : specifiers ≠ []) (hplain : ∀ s ∈ specifiers, s.IsPlain) (hpath : isPath path) :
    Stands dialect (OverridePlan.braced "import" (specifiers.map Specifier.text) path).toList
      (Tells typed []) := by
  have hfails : failsOn dialect importedForm ('\u3000' :: ("\n\x7d".toList ++ ['\ue003'])) := by
    cases dialect <;> rfl
  have hexport : failsOn dialect Form.exportStatement
      ('\u3000' :: ("import \x7b".toList ++ ['\ue003'])) := by
    cases dialect <;> rfl
  have hstart : readsAs dialect (Form.word "import")
      ('\u3000' :: ("import".toList ++ (" \x7b".toList ++ ['\ue003']))) (framesPlainly [] false)
      (" \x7b".toList ++ ['\ue003']) := by
    cases dialect <;> rfl
  have htype : failsOn dialect (.either (Form.word "type") (Form.word "typeof"))
      ('\u3000' :: (" \x7b".toList ++ ['\ue003'])) := by
    cases dialect <;> rfl
  have hnamespace : failsOn dialect namespaceForm ('\u3000' :: (" \x7b".toList ++ ['\ue003'])) := by
    cases dialect <;> rfl
  intro gap next hgap _
  obtain ⟨source, hsource, hsourceFrames⟩ := settles_from dialect hpath next
  have hend : readsAs dialect importEnd (";".toList ++ ['\ue003']) (framesPlainly [] false)
      ['\ue003'] := by
    cases dialect <;> rfl
  obtain ⟨final, hfinal, hfinalFrames⟩ := settles_semicolon hend next
  have htail : Settles (grammar dialect) [] importedForm
      ("\n\x7d".toList ++ (moduleEnd path ++ next)) none :=
    settles_none hfails rfl isSeparator_nil _
  have hitems : ∀ s ∈ specifiers, ReadsItem dialect importedForm (Specifier.text s) fun t =>
      t.kind = .importSpecifier ∧ (fun _ _ => True) s t :=
    fun s hs => readsItem_imported (hplain s hs)
  obtain ⟨list, hlist, hlists⟩ := exists_list (by decide) hne htail hitems
  have hnamed : Settles (grammar dialect) [] Form.namedImports _
      (some (wrap .namedImports list, _)) := hlist.node
  rw [hlists.wrap (by decide)] at hnamed
  obtain ⟨before, hbefore, hbeforeFrames⟩ := settles_frame hstart rfl hgap isPath_a
    (listBody (specifiers.map Specifier.text) ++ (listEnd (specifiers.map Specifier.text) ++
      (moduleEnd path ++ next))) (Filling.expand_ordinary _ (by decide))
  have hstatement := settles_importStatement (settles_none hexport rfl hgap _) hbefore
    (settles_none htype rfl isSeparator_nil _) (settles_none hnamespace rfl isSeparator_nil _)
    hnamed hsource hfinal
  have hframes := hsourceFrames.append hfinalFrames
  have hrow := Row.single hstatement
  have hclause : wrap .importClause [.node none .namedImports list] =
      [.node none .importClause [.node none .namedImports list]] := wrap_eq (by simp; rfl)
  rw [hclause, wrap_eq] at hrow
  · have huntyped :
        (Script.Tree.node none .importClause [.node none .namedImports list]).isUntyped := by
      have hnode : (Script.Tree.node none .namedImports list).isUntyped :=
        Tree.isUntyped_node_iff.mpr ⟨rfl, hlists.untyped⟩
      exact Tree.isUntyped_node_iff.mpr ⟨rfl, by simpa using hnode⟩
    refine ⟨_, ?_, tells_import hbeforeFrames hframes (by simp [Tree.kind]) huntyped⟩
    rw [toList_braced_append]
    rw [List.append_assoc, List.singleton_append] at hrow
    exact hrow
  · refine List.forall_mem_append.mpr ⟨hbeforeFrames.notExtra, List.forall_mem_append.mpr ⟨?_, ?_⟩⟩
    · exact List.forall_mem_cons.mpr ⟨rfl, hsourceFrames.notExtra⟩
    · exact hfinalFrames.notExtra

/-! ## The imports of style files -/

/-- **The import of a file** stands. -/
theorem stands_fileImport {typed : Bool} {path : String} (hpath : isPath path) :
    Stands dialect ("import '" ++ path ++ "';").toList (Tells typed []) := by
  have hread : standsBefore dialect ['\ue003'] "import '\ue002';" false [] := by
    cases dialect <;> rfl
  have hmade : MadeFrom isPlainName_a hpath "import '\ue002';" ("import '" ++ path ++ "';") := by
    intro gap rest hgap
    have hpieces : "import '\ue002';".toList =
        "import '".toList ++ ("\ue002".toList ++ "';".toList) := by decide
    have hpath' : (filling hgap isPlainName_a hpath rest).expand "\ue002".toList = path.toList :=
      List.append_nil _
    rw [hpieces, Filling.expand_append, Filling.expand_append, hpath',
      Filling.expand_ordinary _ (by decide), Filling.expand_ordinary _ (by decide),
      String.toList_append, String.toList_append, List.append_assoc]
  exact (stands_of_template isPlainName_a hpath hread hmade fun _ _ _ => rfl).mono
    fun _ h => h.mono (by simp)

end ThemeOverride
