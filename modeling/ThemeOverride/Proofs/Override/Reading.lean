import ThemeOverride.Proofs.Override.Clauses
import ThemeOverride.Proofs.Override.Names

/-!
# Reading an override back

The text of an override is the row of its pieces. Where it is written with plain words, each piece
is read as what it is, wherever it stands, and the default export is read as it is read alone.

## Main definitions

* `ThemeOverride.StandsAsImport`, `ThemeOverride.IsDefaultBlock` — what is copied is read as an
  import, or as a default export.
* `ThemeOverride.OverridePlan.IsPlain` — an override is written with plain words, and what it copies
  is read as what it was.
* `ThemeOverride.OverridePlan.block` — the default export of an override, as a script of its own.
* `ThemeOverride.Piece.told` — the names that a piece exports, with their kinds.

## Main results

* `ThemeOverride.OverridePlan.standsAsImport_imports` — the imports of an override are imports.
* `ThemeOverride.OverridePlan.stands_exportPieces` — its other pieces export what they are to.
* `ThemeOverride.OverridePlan.parse_text` — the tree of an override, piece by piece.
-/

namespace ThemeOverride

open Script Analysis

/-! ## Joined texts -/

namespace Text

lemma join_cons_cons (separator text second : String) (rest : List String) :
    join separator (text :: second :: rest) =
      text ++ separator ++ join separator (second :: rest) := rfl

/-- One more text behind joined ones. -/
lemma join_append_singleton {separator : String} {texts : List String} (hne : texts ≠ [])
    (last : String) :
    join separator (texts ++ [last]) = join separator texts ++ separator ++ last := by
  induction texts with
  | nil => exact absurd rfl hne
  | cons text rest ih =>
    cases rest with
    | nil => rfl
    | cons second rest =>
      have hrest := ih (List.cons_ne_nil second rest)
      rw [List.cons_append] at hrest
      rw [List.cons_append, List.cons_append, join_cons_cons, hrest, join_cons_cons]
      simp only [String.append_assoc]

/-- Joined texts begin with the first of them. -/
lemma prefix_join (separator text : String) (rest : List String) :
    text.toList <+: (join separator (text :: rest)).toList := by
  cases rest with
  | nil => exact List.prefix_rfl
  | cons second rest =>
    rw [join_cons_cons, String.toList_append, String.toList_append, List.append_assoc]
    exact List.prefix_append _ _

/-- The pieces of a text hold its characters. -/
lemma mem_of_mem_splitAt {separator : Char} {s piece : List Char} (h : piece ∈ splitAt separator s)
    {c : Char} (hc : c ∈ piece) : c ∈ s := by
  induction s generalizing piece with
  | nil =>
    rw [splitAt, List.mem_singleton] at h
    rw [h] at hc
    cases hc
  | cons d rest ih =>
    unfold splitAt at h
    split at h
    · rcases List.mem_cons.mp h with rfl | h
      · cases hc
      · exact List.mem_cons_of_mem d (ih h hc)
    · split at h
      · rw [List.mem_singleton] at h
        rw [h] at hc
        exact List.mem_cons.mpr (Or.inl (List.mem_singleton.mp hc))
      · rename_i first others heq
        rcases List.mem_cons.mp h with rfl | h
        · rcases List.mem_cons.mp hc with rfl | hc
          · exact List.mem_cons_self
          · exact List.mem_cons_of_mem d (ih (by rw [heq]; exact List.mem_cons_self) hc)
        · exact List.mem_cons_of_mem d (ih (by rw [heq]; exact List.mem_cons_of_mem _ h) hc)

lemma mem_of_mem_join {separator : String} {texts : List String} {c : Char}
    (hc : c ∈ (join separator texts).toList) :
    c ∈ separator.toList ∨ ∃ text ∈ texts, c ∈ text.toList := by
  induction texts with
  | nil => simp [join] at hc
  | cons text rest ih =>
    cases rest with
    | nil => exact Or.inr ⟨text, List.mem_cons_self, hc⟩
    | cons second rest =>
      rw [join, String.toList_append, String.toList_append, List.mem_append, List.mem_append] at hc
      · rcases hc with (hc | hc) | hc
        · exact Or.inr ⟨text, List.mem_cons_self, hc⟩
        · exact Or.inl hc
        · rcases ih hc with hc | ⟨other, hmem, hc⟩
          · exact Or.inl hc
          · exact Or.inr ⟨other, List.mem_cons_of_mem text hmem, hc⟩
      · simp

end Text

/-! ## Plain overrides -/

/-- A text is read as an import wherever it stands, so that it exports nothing. -/
structure StandsAsImport (dialect : Dialect) (typed : Bool) (text : String) : Prop where
  begins : "import".toList <+: text.toList
  stands : Stands dialect text.toList (Tells typed [])

/-- The default export of an override, as a script of its own. -/
def defaultBlock (dialect : Dialect) (code : String) : Tree :=
  parse dialect ("\n\n".toList ++ (code.toList ++ ['\n']))

/-- A text begins an export or a decorator, and as a script of its own it holds a default export
and no other export. -/
structure IsDefaultBlock (dialect : Dialect) (code : String) : Prop where
  begins : "export".toList <+: code.toList ∨ "@".toList <+: code.toList
  exports : ∀ t ∈ (defaultBlock dialect code).namedChildren, t.kind = .exportStatement →
    isDefaultExport t
  default : ∃ t ∈ (defaultBlock dialect code).namedChildren, isDefaultExport t

namespace OverridePlan

variable (plan : OverridePlan)

/-- The dialect of an override. -/
def dialect : Dialect := Dialect.ofFileName plan.outputName

/-- An override is written with plain words: the names of the exports are words that the language
does not reserve, and the path of the source and the name of the resource can be quoted. What it
copies is read as what it was: the imports as imports, and the default export as that. -/
structure IsPlain (typed : Bool) : Prop where
  names : ∀ r ∈ plan.allExports, isPlainName r.name
  source : isPath plan.sourcePath
  resource : isPath plan.resourceName
  imports : ∀ text ∈ plan.copiedImports, StandsAsImport plan.dialect typed text
  default : ∀ code ∈ plan.defaultCode, IsDefaultBlock plan.dialect code

/-- Whether the scaffolds or clauses of an override say something about types. -/
def writesTypes : Bool :=
  !plan.typePassthrough.isEmpty || plan.extended.any (·.kind.writesTypes plan.isTypescript)

end OverridePlan

/-- The names that a piece of an override exports, with their kinds. -/
def Piece.told (isTypescript : Bool) : Piece → List (String × ExportKind)
  | imports _ | defaultExport _ => []
  | clause typesAlone names => names.map fun n => (n, if typesAlone then .type else .reference)
  | scaffold r => scaffoldNames r.kind isTypescript r.name

/-! ## The dialect of an override -/

/-- A file name that a type extension is taken from does not end in one. -/
lemma ofFileName_untypedFileName (fileName : String) :
    Dialect.ofFileName (untypedFileName fileName) = .markup := by
  unfold Dialect.ofFileName
  rw [if_neg]
  rw [List.isSuffixOf_iff_suffix]
  intro hsuffix
  unfold untypedFileName replaceEnding Text.dropNewline at hsuffix
  have hending : ∀ front, ¬ ".ts".toList <:+ front ++ ['\n'] := by
    intro front hfront
    rw [← List.reverse_prefix] at hfront
    simp [List.cons_prefix_cons] at hfront
  split at hsuffix
  rename_i body newline hparts
  split at hparts
  · rename_i rest hreverse
    cases hparts
    split at hsuffix
    · rw [← List.reverse_reverse fileName.toList, hreverse, List.reverse_cons] at hsuffix
      exact hending _ hsuffix
    · rename_i stem hstem
      have htext : (String.ofList (stem ++ ".js".toList ++ ['\n'])).toList =
          (stem ++ ".js".toList) ++ ['\n'] := String.toList_ofList
      rw [htext] at hsuffix
      exact hending _ hsuffix
  · cases hparts
    split at hsuffix
    · rename_i hnone
      have htyped := List.findSome?_eq_none_iff.mp hnone ".ts" (by simp)
      unfold Text.dropEnding? at htyped
      rw [if_pos (List.isSuffixOf_iff_suffix.mpr hsuffix)] at htyped
      cases htyped
    · rw [String.toList_ofList, ← List.reverse_prefix] at hsuffix
      simp [List.cons_prefix_cons] at hsuffix

namespace OverridePlan

variable (plan : OverridePlan) {typed : Bool}

lemma dialect_of_untyped (h : plan.isTypescript = false) : plan.dialect = .markup := by
  unfold dialect outputName
  rw [h]
  exact ofFileName_untypedFileName plan.fileName

/-! ## Imports -/

section Imports

/-- The import of a file is read as an import. -/
lemma standsAsImport_file {dialect : Dialect} {path : String} (hpath : isPath path) :
    StandsAsImport dialect typed ("import '" ++ path ++ "';") where
  begins := by simp
  stands := stands_fileImport hpath

variable (h : plan.IsPlain typed)

include h

lemma isPlain_listed : ∀ s ∈ plan.listed, s.IsPlain := by
  intro s hs
  obtain ⟨r, hr, ⟨-, rfl⟩ | ⟨-, -, rfl⟩⟩ := plan.mem_listed.mp hs
  · exact ⟨h.names r hr, by simp⟩
  · exact ⟨h.names r hr, by simp⟩

lemma isPath_sourceDirectory : plan.sourceDirectory.toList.all isQuotable := by
  have hsource := h.source
  unfold isPath at hsource
  obtain ⟨-, hall⟩ := (Bool.and_eq_true _ _).mp hsource
  unfold sourceDirectory
  dsimp only
  split
  · exact hall
  · rw [List.all_eq_true] at hall ⊢
    intro c hc
    rcases Text.mem_of_mem_join hc with hc | ⟨piece, hpiece, hc⟩
    · obtain rfl : c = '/' := by simpa using hc
      decide
    · obtain ⟨chars, hchars, rfl⟩ := List.mem_map.mp (List.dropLast_subset _ hpiece)
      rw [String.toList_ofList] at hc
      exact hall c (Text.mem_of_mem_splitAt hchars hc)

/-- The imports of style files are read as imports. -/
lemma standsAsImport_style : ∀ line ∈ plan.styleImports, StandsAsImport plan.dialect typed line := by
  have hresource := h.resource
  unfold isPath at hresource
  obtain ⟨-, hall⟩ := (Bool.and_eq_true _ _).mp hresource
  have hfile : ∀ front : String, front ≠ "" → front.toList.all isQuotable →
      StandsAsImport plan.dialect typed ("import '" ++ (front ++ plan.resourceName ++ ".style") ++
        "';") := by
    intro front hne hfront
    refine standsAsImport_file ((Bool.and_eq_true _ _).mpr ⟨by simp [hne], ?_⟩)
    have hend : ".style".toList.all isQuotable := by decide
    rw [String.toList_append, String.toList_append, List.all_append, List.all_append, hfront, hall,
      hend]
    rfl
  have hquote : ".style';" = ".style" ++ "';" := by decide
  have hown : StandsAsImport plan.dialect typed
      ("import './" ++ plan.resourceName ++ ".style';") := by
    have hopen : "import './" = "import '" ++ "./" := by decide
    have himport := hfile "./" (by decide) (by decide)
    rw [hopen, hquote]
    simpa only [String.append_assoc] using himport
  have hsource : StandsAsImport plan.dialect typed
      ("import '" ++ plan.sourceDirectory ++ "/" ++ plan.resourceName ++ ".style';") := by
    have himport := hfile (plan.sourceDirectory ++ "/") (by simp) (by
      rw [String.toList_append, List.all_append, plan.isPath_sourceDirectory h]
      decide)
    rw [hquote]
    simpa only [String.append_assoc] using himport
  unfold styleImports
  split
  · simp
  · split
    · simpa using ⟨hsource, hown⟩
    · simpa using hown
    · simp
    · simp

/-- **The imports of an override** are read as imports. -/
lemma standsAsImport_imports :
    ∀ line ∈ plan.imports, StandsAsImport plan.dialect typed line := by
  rw [imports_eq]
  unfold importLines sourceImport
  refine List.forall_mem_append.mpr ⟨List.forall_mem_append.mpr ⟨h.imports, ?_⟩,
    plan.standsAsImport_style h⟩
  split
  · simp
  · rename_i hne
    rw [List.forall_mem_singleton]
    constructor
    · rw [toList_braced]
      exact List.prefix_append _ _
    · exact stands_sourceImport (by simpa using hne) (plan.isPlain_listed h) h.source

/-- The imports stand together, one on each line. -/
lemma stands_imports (hne : plan.imports ≠ []) :
    Stands plan.dialect (Text.join "\n" plan.imports).toList (Tells typed []) := by
  have hnames : plan.imports.flatMap (fun _ => ([] : List (String × ExportKind))) = [] :=
    List.flatMap_eq_nil_iff.mpr fun _ _ => rfl
  rw [← hnames, ← List.map_id plan.imports, List.flatMap_map]
  refine Stands.join hne (fun a b xs ys => Tells.append) (List.all_eq_true.mp rfl)
    (fun line hline => (plan.standsAsImport_imports h line hline).stands) fun line hline next => ?_
  obtain ⟨rest, hrest⟩ := (plan.standsAsImport_imports h line (List.mem_of_mem_tail hline)).begins
  rw [id, ← hrest, List.append_assoc]
  exact Follow.import _

end Imports

/-! ## Pieces -/

/-- The pieces of an override that export names: its clauses and its scaffolds. -/
def exportPieces : List Piece :=
  clauses false plan.valuePassthrough ++ clauses true plan.typePassthrough ++
    plan.extended.map .scaffold

lemma pieces_eq : plan.pieces = plan.importPieces ++ plan.exportPieces ++ plan.defaultPieces := by
  unfold pieces exportPieces
  simp only [List.append_assoc]

/-- The names that the pieces of an override export, with their kinds. -/
def told : List (String × ExportKind) :=
  plan.exportPieces.flatMap (Piece.told plan.isTypescript)

lemma begins_exportPieces :
    ∀ p ∈ plan.exportPieces, "export".toList <+: (plan.pieceText p).toList := by
  have hclauses : ∀ typesAlone names, ∀ p ∈ clauses typesAlone names,
      "export".toList <+: (plan.pieceText p).toList := by
    intro typesAlone names p hp
    unfold clauses at hp
    split at hp
    · cases hp
    · rw [List.mem_singleton.mp hp]
      unfold pieceText Piece.text
      cases typesAlone with
      | false =>
        dsimp only
        rw [toList_braced]
        exact List.prefix_append _ _
      | true =>
        dsimp only
        rw [toList_braced]
        have hwords : "export type".toList = "export".toList ++ " type".toList := by decide
        rw [hwords, List.append_assoc]
        exact List.prefix_append _ _
  refine List.forall_mem_append.mpr ⟨List.forall_mem_append.mpr
    ⟨hclauses _ _, hclauses _ _⟩, ?_⟩
  rw [List.forall_mem_map]
  intro r _
  obtain ⟨keyword, -, rest, htext, -⟩ := renderExtension_declares r plan.isTypescript
  have hwords : ("export " ++ keyword ++ " " ++ r.name).toList =
      "export".toList ++ (" ".toList ++ (keyword ++ " " ++ r.name).toList) := by
    have hexport : "export ".toList = "export".toList ++ " ".toList := by decide
    simp only [String.toList_append, List.append_assoc, hexport]
  rw [pieceText, Piece.text, htext, hwords, List.append_assoc]
  exact List.prefix_append _ _

section Pieces

variable (h : plan.IsPlain typed) (htyped : plan.writesTypes → typed)

include h htyped

/-- **The pieces that export names** stand, and export them. -/
lemma stands_exportPieces : ∀ p ∈ plan.exportPieces,
    Stands plan.dialect (plan.pieceText p).toList (Tells typed (p.told plan.isTypescript)) := by
  have hpassed : ∀ n ∈ plan.passthrough.map (·.name), isPlainName n := by
    intro n hn
    obtain ⟨r, hr, rfl⟩ := List.mem_map.mp hn
    exact h.names r (plan.mem_passthrough.mp hr).1
  refine List.forall_mem_append.mpr ⟨List.forall_mem_append.mpr ⟨?_, ?_⟩, ?_⟩
  · unfold clauses
    split
    · simp
    · rename_i hne
      rw [List.forall_mem_singleton]
      have hnames : ∀ n ∈ plan.valuePassthrough, isPlainName n := fun n hn =>
        hpassed n (List.mem_filter.mp hn).1
      exact (stands_passClause false (by simpa using hne) hnames h.source).mono
        fun _ ht => ht.mono (by simp)
  · unfold clauses
    split
    · simp
    · rename_i hne
      rw [List.forall_mem_singleton]
      have hnames : ∀ n ∈ plan.typePassthrough, isPlainName n := by
        intro n hn
        obtain ⟨r, hr, rfl⟩ := List.mem_map.mp hn
        exact hpassed r.name (List.mem_map_of_mem (List.mem_filter.mp hr).1)
      refine (stands_passClause true (by simpa using hne) hnames h.source).mono
        fun _ ht => ht.mono fun _ => htyped ?_
      unfold writesTypes
      simpa using Or.inl hne
  · rw [List.forall_mem_map]
    intro r hr
    refine (stands_renderExtension (h.names r (plan.mem_extended.mp hr).1)
      plan.dialect_of_untyped).mono fun _ ht => ht.mono fun hwrites => htyped ?_
    unfold writesTypes
    rw [Bool.or_eq_true, List.any_eq_true]
    exact Or.inr ⟨r, hr, hwrites⟩

/-- The pieces before the default export stand together. -/
lemma stands_front (hne : plan.exportPieces ≠ []) :
    Stands plan.dialect
      (Text.join "\n\n" ((plan.importPieces ++ plan.exportPieces).map plan.pieceText)).toList
      (Tells typed plan.told) := by
  have himports : ∀ p ∈ plan.importPieces,
      Stands plan.dialect (plan.pieceText p).toList (Tells typed (p.told plan.isTypescript)) := by
    unfold importPieces
    split
    · simp
    · rename_i htext
      rw [List.forall_mem_singleton]
      refine plan.stands_imports h ?_
      rintro hnone
      rw [hnone] at htext
      exact htext rfl
  have htail : ∀ p ∈ (plan.importPieces ++ plan.exportPieces).tail, p ∈ plan.exportPieces := by
    unfold importPieces
    split
    · exact fun p hp => List.mem_of_mem_tail hp
    · exact fun p hp => hp
  have hnames : plan.told = (plan.importPieces ++ plan.exportPieces).flatMap
      (Piece.told plan.isTypescript) := by
    have hnone : plan.importPieces.flatMap (Piece.told plan.isTypescript) = [] := by
      unfold importPieces
      split <;> rfl
    rw [List.flatMap_append, hnone]
    rfl
  rw [hnames]
  refine Stands.join (by simp [hne]) (fun a b xs ys => Tells.append)
    (List.all_eq_true.mp rfl)
    (List.forall_mem_append.mpr ⟨himports, plan.stands_exportPieces h htyped⟩) fun p hp next => ?_
  obtain ⟨rest, hrest⟩ := plan.begins_exportPieces p (htail p hp)
  rw [← hrest, List.append_assoc]
  exact Follow.export _

end Pieces

/-! ## The whole text -/

/-- What stands behind the pieces that export names: the default export, if there is one, and the
end of the last line. -/
def lastLines : List Char :=
  match plan.defaultCode with
  | some code => "\n\n".toList ++ (code.toList ++ ['\n'])
  | none => ['\n']

/-- The default export of an override, as a script of its own. -/
def block : Tree := parse plan.dialect plan.lastLines

/-- A line for the system begins neither an import, an export nor a decorator. -/
lemma beginsHashBang_append {gap : List Char} (hgap : ∀ c ∈ gap, isSeparator c) {word : String}
    (hword : word ∈ ["import", "export", "@"]) (rest : List Char) :
    beginsHashBang (gap ++ (word.toList ++ rest)) = false := by
  have hword' : ∀ word ∈ ["import", "export", "@"], ∃ c front, word.toList = c :: front ∧
      isSeparator c = false ∧ ('#' == c) = false := by
    simp only [List.forall_mem_cons]
    exact ⟨⟨'i', _, rfl, by decide⟩, ⟨'e', _, rfl, by decide⟩, ⟨'@', _, rfl, by decide⟩, by simp⟩
  obtain ⟨c, front, hfront, hseparator, hmark⟩ := hword' word hword
  unfold beginsHashBang blanks
  rw [hfront, List.cons_append, List.dropWhile_append_of_pos hgap,
    List.dropWhile_cons_of_neg (by simp [hseparator])]
  simp [List.isPrefixOf, hmark]

section Text

variable (h : plan.IsPlain typed)

include h

lemma begins_default {code : String} (hcode : plan.defaultCode = some code) :
    "export".toList <+: code.toList ∨ "@".toList <+: code.toList :=
  (h.default code hcode).begins

lemma toList_text (hne : plan.exportPieces ≠ []) :
    plan.text.toList =
      (Text.join "\n\n" ((plan.importPieces ++ plan.exportPieces).map plan.pieceText)).toList ++
        plan.lastLines := by
  rw [text_eq_join_pieces, pieces_eq]
  unfold defaultPieces lastLines
  cases hcode : plan.defaultCode with
  | none => simp
  | some code =>
    have hfilled : code ≠ "" := by
      rintro rfl
      rcases plan.begins_default h hcode with hbegins | hbegins
      · exact absurd hbegins (by decide)
      · exact absurd hbegins (by decide)
    have hdefault : ((some code).toList.filter (· != "")).map Piece.defaultExport =
        [.defaultExport code] := by
      simp [hfilled]
    rw [hdefault, List.map_append, List.map_singleton, Text.join_append_singleton (by simp [hne]),
      String.toList_append, String.toList_append, String.toList_append, List.append_assoc,
      List.append_assoc]
    rfl

lemma follow_lastLines : Follow plan.lastLines := by
  unfold lastLines
  cases hcode : plan.defaultCode with
  | none => exact .finish
  | some code =>
    dsimp only
    rcases plan.begins_default h hcode with ⟨rest, hrest⟩ | ⟨rest, hrest⟩
    · rw [← hrest, List.append_assoc]
      exact Follow.export _
    · rw [← hrest, List.append_assoc]
      exact Follow.decorator _

lemma beginsHashBang_lastLines : beginsHashBang plan.lastLines = false := by
  have hbreaks : ∀ c ∈ "\n\n".toList, isSeparator c := List.all_eq_true.mp rfl
  unfold lastLines
  cases hcode : plan.defaultCode with
  | none => decide
  | some code =>
    dsimp only
    rcases plan.begins_default h hcode with ⟨rest, hrest⟩ | ⟨rest, hrest⟩
    · rw [← hrest, List.append_assoc]
      exact beginsHashBang_append hbreaks (by simp) _
    · rw [← hrest, List.append_assoc]
      exact beginsHashBang_append hbreaks (by simp) _

/-- What an override begins with: an import or an export. -/
lemma beginsHashBang_text (hne : plan.exportPieces ≠ []) :
    beginsHashBang plan.text.toList = false := by
  have hword : ∀ word ∈ ["import", "export", "@"], ∀ s : List Char, word.toList <+: s →
      beginsHashBang s = false := by
    rintro word hword s ⟨rest, rfl⟩
    exact beginsHashBang_append isSeparator_nil hword rest
  rw [plan.toList_text h hne]
  unfold importPieces
  split
  · obtain ⟨p, pieces, hpieces⟩ := List.exists_cons_of_ne_nil hne
    have hp := plan.begins_exportPieces p (by rw [hpieces]; exact List.mem_cons_self)
    rw [hpieces]
    exact hword "export" (by simp) _ (hp.trans ((Text.prefix_join _ _ _).trans
      (List.prefix_append _ _)))
  · rename_i htext
    obtain ⟨line, lines, hlines⟩ : ∃ line lines, plan.imports = line :: lines := by
      refine List.exists_cons_of_ne_nil ?_
      rintro hnone
      rw [hnone] at htext
      exact htext rfl
    have hline := (plan.standsAsImport_imports h line (by rw [hlines]; exact List.mem_cons_self)).begins
    refine hword "import" (by simp) _ ((hline.trans ?_).trans (List.prefix_append _ _))
    have hpiece : line.toList <+: (plan.pieceText (.imports plan.imports)).toList := by
      rw [hlines]
      exact Text.prefix_join _ _ _
    exact hpiece.trans (Text.prefix_join _ _ _)

/-- **The tree of an override**: what its pieces are read as, before its default export as a script
of its own. -/
theorem parse_text (htyped : plan.writesTypes → typed) (hne : plan.exportPieces ≠ [])
    {text : String} (hok : synthesize plan = .ok text) :
    ∃ trees rest, Tells typed plan.told trees ∧ plan.block = .node none .program rest ∧
      parse plan.dialect text.toList = .node none .program (trees ++ rest) := by
  obtain ⟨trees, hrow, htells⟩ := plan.stands_front h htyped hne [] plan.lastLines (by simp)
    (plan.follow_lastLines h)
  rw [List.nil_append, ← plan.toList_text h hne] at hrow
  have hread := readProgram?_of_row (plan.beginsHashBang_text h hne) (plan.beginsHashBang_lastLines h)
    hrow
  obtain ⟨rfl, herrors⟩ := synthesize_eq_ok_iff.mp hok
  change (readProgram? plan.dialect plan.text.toList).isNone = false at herrors
  unfold block parse
  rw [hread] at herrors ⊢
  cases hlast : readProgram? plan.dialect plan.lastLines with
  | none =>
    rw [hlast] at herrors
    cases herrors
  | some root =>
    obtain ⟨rest, -, rfl⟩ := readProgram?_eq_some_iff.mp hlast
    exact ⟨trees, rest, htells, rfl, rfl⟩

end Text

end OverridePlan

end ThemeOverride
