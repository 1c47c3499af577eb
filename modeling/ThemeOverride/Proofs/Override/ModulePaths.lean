import ThemeOverride.Proofs.Override.CopiedImports
import ThemeOverride.Proofs.Text.PathText

/-!
# Paths of modules in copied imports

A module that is named relative to the source is named in the override by its path in the source
module. This path is told from a walk: the names of the directory of the source make up a stack,
and the names of the relative path are replayed on it.

## Main definitions

* `ThemeOverride.replay?` — names replayed on a stack of names.
* `ThemeOverride.IsPlainDirectory` — a directory that is spelled without needless names.
* `ThemeOverride.Analysis.NamesPlainly` — an import statement names its module without escapes.
* `ThemeOverride.Analysis.WritesPath` — a copy of an import statement with a path in it.

## Main results

* `ThemeOverride.normalizePath_join` — a relative path is the join of the names that are left on
  the stack.
* `ThemeOverride.Analysis.copied?_relative` — copied imports name modules by these paths.

## Design

The path is put together by a fold that keeps names which lead above all others. A replay ends
there instead, so on a stack that holds no such name the two agree as long as the replay goes on.
-/

namespace ThemeOverride

open Script Text

/-! ## Names on a stack -/

/-- Names replayed on a stack of names, the last first. Empty names and single full stops do
nothing, two full stops take the last name off, and there must be one. -/
def replay? (stack : List (List Char)) : List (List Char) → Option (List (List Char))
  | [] => some stack
  | name :: rest =>
    if name = [] ∨ name = ['.'] then replay? stack rest
    else if name = ['.', '.'] then
      match stack with
      | [] => none
      | _ :: below => replay? below rest
    else replay? (name :: stack) rest

/-- A name that stands for a place of its own: it is not empty, and neither of the two names for a
directory itself and the one above. -/
def IsPlainName (name : List Char) : Prop :=
  name ≠ [] ∧ name ≠ ['.'] ∧ name ≠ ['.', '.'] ∧ '/' ∉ name

/-- A directory that is spelled as names that stand for places of their own. -/
def IsPlainDirectory (directory : List Char) : Prop :=
  ∀ name ∈ splitAt '/' directory, name ≠ [] ∧ name ≠ ['.'] ∧ name ≠ ['.', '.']

instance (directory : List Char) : Decidable (IsPlainDirectory directory) :=
  inferInstanceAs (Decidable
    (∀ name ∈ splitAt '/' directory, name ≠ [] ∧ name ≠ ['.'] ∧ name ≠ ['.', '.']))

/-- The names of a directory, the last first. -/
def stackOf (directory : List Char) : List (List Char) := (splitAt '/' directory).reverse

lemma isPlainName_of_mem {directory : List Char} (h : IsPlainDirectory directory)
    {name : List Char} (hname : name ∈ splitAt '/' directory) : IsPlainName name := by
  obtain ⟨hempty, hdot, hdots⟩ := h name hname
  exact ⟨hempty, hdot, hdots, notMem_of_mem_splitAt _ name hname⟩

/-- A name that stands for a place of its own is put on the stack. -/
lemma pushName_of_isPlainName {name : List Char} (h : IsPlainName name) (rooted : Bool)
    (stack : List (List Char)) : pushName rooted stack name = name :: stack := by
  obtain ⟨hempty, hdot, hdots, -⟩ := h
  unfold pushName
  rw [if_neg (by simp [hempty, hdot]), if_neg (by simpa using hdots)]

lemma foldl_pushName_of_isPlainName {names : List (List Char)} (h : ∀ n ∈ names, IsPlainName n)
    (rooted : Bool) (stack : List (List Char)) :
    names.foldl (pushName rooted) stack = names.reverse ++ stack := by
  induction names generalizing stack with
  | nil => rfl
  | cons name rest ih =>
    rw [List.foldl_cons, pushName_of_isPlainName (h name List.mem_cons_self),
      ih fun n hn => h n (List.mem_cons_of_mem _ hn)]
    simp

/-- A replay that goes on to its end leaves what the fold leaves, and only names that stand for
places of their own. -/
lemma foldl_pushName_of_replay? {stack names final : List (List Char)}
    (hstack : ∀ n ∈ stack, IsPlainName n) (hnames : ∀ n ∈ names, '/' ∉ n)
    (h : replay? stack names = some final) (rooted : Bool) :
    names.foldl (pushName rooted) stack = final ∧ ∀ n ∈ final, IsPlainName n := by
  induction names generalizing stack with
  | nil =>
    rw [replay?] at h
    cases h
    exact ⟨rfl, hstack⟩
  | cons name rest ih =>
    have hrest : ∀ n ∈ rest, '/' ∉ n := fun n hn => hnames n (List.mem_cons_of_mem _ hn)
    unfold replay? at h
    rw [List.foldl_cons]
    split at h
    · rename_i hidle
      have hpush : pushName rooted stack name = stack := by
        unfold pushName
        exact if_pos (by simpa using hidle)
      rw [hpush]
      exact ih hstack hrest h
    · rename_i hidle
      obtain ⟨hempty, hdot⟩ := not_or.mp hidle
      split at h
      · rename_i hdots
        subst hdots
        cases stack with
        | nil => cases h
        | cons top below =>
          have htop : (top == ['.', '.']) = false := by
            simpa using (hstack top List.mem_cons_self).2.2.1
          have hpush : pushName rooted (top :: below) ['.', '.'] = below := by
            unfold pushName
            rw [if_neg (by decide), if_pos (by decide)]
            dsimp only
            rw [htop, if_neg Bool.false_ne_true]
          rw [hpush]
          exact ih (fun n hn => hstack n (List.mem_cons_of_mem _ hn)) hrest h
      · rename_i hdots
        have hname : IsPlainName name := ⟨hempty, hdot, hdots, hnames name List.mem_cons_self⟩
        rw [pushName_of_isPlainName hname]
        exact ih (List.forall_mem_cons.mpr ⟨hname, hstack⟩) hrest h

/-! ## Paths -/

/-- Names joined by slashes are the pieces at slashes. -/
lemma splitAt_intercalate {names : List (List Char)} (hne : names ≠ [])
    (h : ∀ n ∈ names, '/' ∉ n) : splitAt '/' (['/'].intercalate names) = names := by
  induction names with
  | nil => exact absurd rfl hne
  | cons n rest ih =>
    cases rest with
    | nil =>
      rw [List.intercalate_singleton]
      exact splitAt_of_notMem (h n List.mem_cons_self)
    | cons m rest =>
      rw [List.intercalate_cons_cons, List.append_assoc, List.singleton_append,
        splitAt_append_cons (h n List.mem_cons_self),
        ih (List.cons_ne_nil _ _) fun k hk => h k (List.mem_cons_of_mem _ hk)]

lemma splitAt_append (s t : List Char) :
    splitAt '/' (s ++ '/' :: t) = splitAt '/' s ++ splitAt '/' t := by
  induction s with
  | nil => rfl
  | cons c s ih =>
    rw [List.cons_append, splitAt, splitAt]
    split
    · rw [ih, List.cons_append]
    · rw [ih]
      cases h : splitAt '/' s with
      | nil => exact absurd h (splitAt_ne_nil '/' s)
      | cons piece pieces => rfl

section

variable {directory s : List Char}

/-- A relative path is seen from a directory behind a slash. -/
lemma joinPath_of_isPlainDirectory (hd : IsPlainDirectory directory) (hs : ['.'] <+: s) :
    joinPath directory s = directory ++ '/' :: s := by
  have hempty : [] ∉ splitAt '/' directory := fun hmem => (hd [] hmem).1 rfl
  have hrelative : ['/'].isPrefixOf s = false := by
    obtain ⟨rest, rfl⟩ := hs
    rfl
  have hne : directory.isEmpty = false := by
    cases directory with
    | nil => exact absurd (List.mem_singleton_self _) hempty
    | cons => rfl
  have hend : ['/'].isSuffixOf directory = false := by
    rw [Bool.eq_false_iff]
    intro hsuffix
    obtain ⟨before, rfl⟩ := List.isSuffixOf_iff_suffix.mp hsuffix
    rw [splitAt_append before []] at hempty
    exact hempty (List.mem_append_right _ (List.mem_singleton_self _))
  unfold joinPath
  rw [hrelative, hne, hend]
  rfl

/-- A path below such a directory has no root. -/
lemma rootOf_of_isPlainDirectory (hd : IsPlainDirectory directory) (rest : List Char) :
    Path.rootOf (directory ++ rest) = "" := by
  cases directory with
  | nil => exact absurd rfl (hd [] (List.mem_singleton_self _)).1
  | cons c more =>
    have hc : c ≠ '/' := by
      rintro rfl
      exact (hd [] List.mem_cons_self).1 rfl
    rw [List.cons_append]
    unfold Path.rootOf
    split
    all_goals simp_all

/-- **A relative path** is the join of the names that are left of a replay on the names of the
directory it is seen from. -/
theorem normalizePath_join (hd : IsPlainDirectory directory) (hs : ['.'] <+: s)
    {final : List (List Char)} (h : replay? (stackOf directory) (splitAt '/' s) = some final)
    (hne : final ≠ []) :
    normalizePath (joinPath directory s) = ['/'].intercalate final.reverse ∧
      ∀ n ∈ final, IsPlainName n := by
  have hnames : ∀ n ∈ splitAt '/' directory, IsPlainName n := fun n => isPlainName_of_mem hd
  have hreplay := fun rooted => foldl_pushName_of_replay?
    (fun n hn => hnames n (List.mem_reverse.mp hn)) (notMem_of_mem_splitAt s) h rooted
  have hplain := (hreplay false).2
  refine ⟨?_, hplain⟩
  have hfold : ∀ rooted,
      (splitAt '/' (directory ++ '/' :: s)).foldl (pushName rooted) [] = final := fun rooted => by
    rw [splitAt_append, List.foldl_append, foldl_pushName_of_isPlainName hnames, List.append_nil]
    exact (hreplay rooted).1
  have hpath : ∃ c rest, ['/'].intercalate final.reverse = c :: rest := by
    obtain ⟨n, rest, hrest⟩ := List.exists_cons_of_ne_nil (mt List.reverse_eq_nil_iff.mp hne)
    have hn : n ∈ final := List.mem_reverse.mp (hrest ▸ List.mem_cons_self)
    obtain ⟨c, more, rfl⟩ := List.exists_cons_of_ne_nil (hplain n hn).1
    rw [hrest]
    cases rest with
    | nil => exact ⟨c, more, List.intercalate_singleton⟩
    | cons m rest => exact ⟨c, _, List.intercalate_cons_cons⟩
  unfold normalizePath
  rw [joinPath_of_isPlainDirectory hd hs, rootOf_of_isPlainDirectory hd]
  dsimp only
  rw [hfold]
  obtain ⟨c, rest, hpath⟩ := hpath
  rw [hpath]
  rfl

/-- A join of names that stand for places of their own does not begin with a relative one. -/
lemma not_prefix_intercalate {names : List (List Char)} (h : ∀ n ∈ names, IsPlainName n)
    (hne : names ≠ []) :
    ¬ ['.', '/'] <+: ['/'].intercalate names ∧ ¬ ['.', '.', '/'] <+: ['/'].intercalate names := by
  have hfirst : ∀ name rest, '/' ∉ name → ['/'].intercalate names = name ++ '/' :: rest →
      IsPlainName name := by
    intro name rest hname heq
    have hsplit := splitAt_intercalate hne fun n hn => (h n hn).2.2.2
    rw [heq, splitAt_append_cons hname] at hsplit
    exact h name (hsplit ▸ List.mem_cons_self)
  constructor
  · rintro ⟨rest, hrest⟩
    exact (hfirst ['.'] rest (by decide) hrest.symm).2.1 rfl
  · rintro ⟨rest, hrest⟩
    exact (hfirst ['.', '.'] rest (by decide) hrest.symm).2.2.1 rfl

end

/-! ## Copies -/

namespace Analysis

/-- The text that names the module of an import statement, where there are no escapes in it:
between the quotes there is one stretch of text. -/
def plainSpecifier? (statement : Tree) : Option (List Char) :=
  match (statement.child? .source).map Tree.children with
  | some [opening, piece, closing] =>
    if opening.kind == .token && piece.kind == .stringFragment && closing.kind == .token then
      some piece.text
    else none
  | _ => none

/-- A text is a copy of an import statement with a path in it: the text of the statement with the
path in the place of the text that names the module, or a statement spelled with the path. -/
def WritesPath (statement : Tree) (text : String) (path : List Char) : Prop :=
  (∃ specifier before after, specifier? statement = some specifier ∧
    statement.text = before ++ (specifier.text ++ after) ∧
      text.toList = before ++ (path ++ after)) ∨
  ∃ clauses, text = spelledImport (statement.hasKeyword "type") clauses (String.ofList path)

/-- Without escapes, the whole text in quotes is taken for the name of the module. -/
lemma specifier?_of_plainSpecifier? {statement : Tree} {s : List Char}
    (h : plainSpecifier? statement = some s) :
    ∃ specifier, specifier? statement = some specifier ∧ specifier.text = s := by
  unfold plainSpecifier? at h
  split at h
  · rename_i opening piece closing hchildren
    obtain ⟨source, hsource, hparts⟩ := Option.map_eq_some_iff.mp hchildren
    split at h
    · rename_i hkinds
      cases h
      simp only [Bool.and_eq_true, beq_iff_eq] at hkinds
      obtain ⟨⟨hopening, hpiece⟩, hclosing⟩ := hkinds
      refine ⟨piece, ?_, rfl⟩
      simp [specifier?, hsource, Tree.namedChildren, hparts, hopening, hpiece, Kind.isNamed]
    · cases h
  · cases h

/-- A copied import has the path of its module in it. -/
lemma writesPath_of_copied? {p : Placed} {s : List Char} {r : ImportRecord}
    (hp : p.IsIn byteWeight s) (hr : importRecord? p = some r) {exported references : List String}
    {directory text : String} {isTypescript : Bool}
    (h : r.copied? s exported references directory isTypescript = some text) :
    WritesPath p.tree text (r.modulePath directory).toList := by
  obtain ⟨-, htype, -⟩ := importRecord?_slices hp hr
  obtain ⟨specifier, before, after, hspecifier, -, htext, hcopy⟩ :=
    exists_copiedText hp hr directory
  rcases r.copies_of_copied? exported h with ⟨-, rfl⟩ | rfl
  · exact Or.inl ⟨specifier, before, after, hspecifier, htext, hcopy⟩
  · right
    rw [ImportRecord.rebuild_eq, String.ofList_toList, ← htype]
    exact ⟨_, rfl⟩

/-- **Relative specifiers keep their meaning.** Let an import statement name its module without
escapes by a relative text, and let the names of this text be replayed on those of the directory
of its source. If the replay goes on to its end and leaves any names, then a copy of the statement
names the module by the join of these names. This is no relative path, and it is the same for all
texts that lead to the same names. -/
theorem copied?_relative {source fileName : String} {p : Placed}
    (hp : p ∈ (Placed.mk 0 (parse (Dialect.ofFileName fileName) source.toList)).namedChildren
      byteWeight)
    {r : ImportRecord} (hr : importRecord? p = some r) {s : List Char}
    (hs : plainSpecifier? p.tree = some s) (hdot : ['.'] <+: s) {directory : String}
    (hd : IsPlainDirectory directory.toList) {final : List (List Char)}
    (hreplay : replay? (stackOf directory.toList) (splitAt '/' s) = some final) (hne : final ≠ [])
    {exported references : List String} {isTypescript : Bool} {text : String}
    (h : r.copied? source.toList exported references directory isTypescript = some text) :
    WritesPath p.tree text (['/'].intercalate final.reverse) ∧
    ¬ ['.', '/'] <+: ['/'].intercalate final.reverse ∧
    ¬ ['.', '.', '/'] <+: ['/'].intercalate final.reverse ∧
    ∀ s', ['.'] <+: s' → replay? (stackOf directory.toList) (splitAt '/' s') = some final →
      modulePathFrom directory (String.ofList s') =
        String.ofList (['/'].intercalate final.reverse) := by
  have hpath : ∀ s', ['.'] <+: s' →
      replay? (stackOf directory.toList) (splitAt '/' s') = some final →
        modulePathFrom directory (String.ofList s') =
          String.ofList (['/'].intercalate final.reverse) := by
    intro s' hdot' hreplay'
    have htext : (String.ofList s').toList = s' := String.toList_ofList
    have hrelative : ".".toList.isPrefixOf s' = true := List.isPrefixOf_iff_prefix.mpr hdot'
    unfold modulePathFrom
    rw [htext, if_pos hrelative, (normalizePath_join hd hdot' hreplay' hne).1]
  have hin : p.IsIn byteWeight source.toList :=
    (Placed.isPart_of_mem_namedChildren hp).isIn (Placed.isIn_parse _ _)
  obtain ⟨-, -, specifier, -, -, hspecifier, hsource, -⟩ := importRecord?_slices hin hr
  obtain ⟨specifier', hspecifier', rfl⟩ := specifier?_of_plainSpecifier? hs
  obtain rfl : specifier = specifier' := Option.some.inj (hspecifier.symm.trans hspecifier')
  have hwrites := writesPath_of_copied? hin hr h
  rw [r.modulePath_eq, hsource, Tree.toText, hpath _ hdot hreplay, String.toList_ofList] at hwrites
  obtain ⟨hcurrent, habove⟩ := not_prefix_intercalate
    (fun n hn => (normalizePath_join hd hdot hreplay hne).2 n (List.mem_reverse.mp hn))
    (mt List.reverse_eq_nil_iff.mp hne)
  exact ⟨hwrites, hcurrent, habove, hpath⟩

/-- The syntax tree of a script that imports from a place named with needless names. -/
def windingImport : Tree :=
  parse (Dialect.ofFileName "X.js") "import y from './../a//./.../x/';\n".toList

set_option maxRecDepth 10000 in
theorem copied?_relative_windingImport :
    ∃ p ∈ (Placed.mk 0 windingImport).namedChildren byteWeight,
      ∃ r, importRecord? p = some r ∧
        r.copied? "import y from './../a//./.../x/';\n".toList [] ["y"] "m/src" false =
          some "import y from 'm/a/.../x';" ∧
        WritesPath p.tree "import y from 'm/a/.../x';" "m/a/.../x".toList := by
  have hfacts : ∃ p ∈ (Placed.mk 0 windingImport).namedChildren byteWeight,
      plainSpecifier? p.tree = some "./../a//./.../x/".toList ∧
        (importRecord? p).bind (fun r => r.copied? "import y from './../a//./.../x/';\n".toList []
          ["y"] "m/src" false) = some "import y from 'm/a/.../x';" := by decide +kernel
  obtain ⟨p, hp, hplain, hcopied⟩ := hfacts
  obtain ⟨r, hr, hcopied⟩ := Option.bind_eq_some_iff.mp hcopied
  have hreplay : replay? (stackOf "m/src".toList) (splitAt '/' "./../a//./.../x/".toList) =
      some ["x".toList, "...".toList, "a".toList, "m".toList] := by decide
  exact ⟨p, hp, r, hr, hcopied, (copied?_relative hp hr hplain (by decide) (by decide) hreplay
    (by decide) hcopied).1⟩

set_option maxRecDepth 10000 in
/-- Where the text that names a module has an escape in it, only what comes before is replaced:
the name of the directory and the name that begins with the escape run into each other. -/
theorem copiedImports_escape :
    replay? (stackOf "m/src/component".toList) (splitAt '/' "../\\u0061b".toList) =
      some ["\\u0061b".toList, "src".toList, "m".toList] ∧
    copiedImports (analyzeExports "import x from '../\\u0061b';\n" "X.js" false)
        "import x from '../\\u0061b';\n" ["x"] "m/src/component" false =
      ["import x from 'm/src\\u0061b';"] ∧
    "import x from 'm/src\\u0061b';" ≠ "import x from 'm/src/\\u0061b';" := by
  decide +kernel

end Analysis

end ThemeOverride
