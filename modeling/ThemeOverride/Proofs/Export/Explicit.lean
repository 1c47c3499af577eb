import ThemeOverride.Proofs.Export.Kinds
import ThemeOverride.Proofs.Export.Patterns

/-!
# Names that a script exports

A script exports a name by declaring it in an export, by listing it, with or without a module that
it comes from, or by a name for all exports of another module. The analysis looks at declarations
by their kinds and at lists. Which names are exported is told here from all forms of exports, so
that it can be said which of them the analysis overlooks, and which names it records that are not
exported.

Names are compared as they are written: a word by its characters, a string by those between its
quotes.

## Main definitions

* `ThemeOverride.Analysis.declares` — the names that a declaration of any kind binds.
* `ThemeOverride.Analysis.explicitExports` — the names that a script exports, less `default`.
* `ThemeOverride.Analysis.overlookedExports` — those of the forms that the analysis overlooks.
* `ThemeOverride.Analysis.spuriousExports` — the names that it records without an export of them.

## Main results

* `ThemeOverride.Analysis.names_eq_explicitExports_iff` — the analysis records exactly the exported
  names where all overlooked names are also recorded for another export, and all spurious ones are
  also exported.

## Design

What a statement is recorded with accounts for what it exports but for two lists: names that are
missing, and names that are too many. Such accounts are put together from those of the parts, so
that each form of an export is looked at once.
-/

namespace ThemeOverride

open Script

namespace Analysis

/-! ## What scripts export -/

/-- A name as it is written: a word, or what stands between the quotes of a string. -/
def writtenName (t : Tree) : String :=
  if t.kind == .string then String.ofList (t.text.drop 1).dropLast else t.toText

/-- The word at which the path of a namespace begins. -/
def pathHead : Tree → Tree
  | .leaf f k gap text => .leaf f k gap text
  | .node f k [] => .node f k []
  | .node f k (c :: cs) => if k == .nestedIdentifier then pathHead c else .node f k (c :: cs)

/-- The name that a declaration of a module binds: the first word of its path, and nothing where
the module is named by a string. -/
def moduleNames (declaration : Tree) : List String :=
  ((declaration.child? .name).toList.filter (·.kind != .string)).map fun name =>
    (pathHead name).toText

/-- The name for a member of a namespace. -/
def aliasNames (declaration : Tree) : List String :=
  (declaration.children.find? (·.kind == .identifier)).toList.map Tree.toText

/-- The names that a declaration of variables, or of a function, class or type binds. -/
def plainNames (declaration : Tree) : List String :=
  if (declarationKind? declaration.kind).isSome then
    (declaration.child? .name).toList.map Tree.toText
  else if declaration.kind == .lexicalDeclaration || declaration.kind == .variableDeclaration then
    boundNames declaration
  else []

/-- Whether the analysis overlooks declarations of a kind: those of what exists elsewhere, of
modules and namespaces, and of names for members of namespaces. -/
def isOverlooked : Kind → Bool
  | .ambientDeclaration | .moduleDeclaration | .namespaceDeclaration | .importAlias => true
  | _ => false

mutual

/-- The names that a declaration binds. -/
def declares : Tree → List String
  | .leaf .. => []
  | .node f k cs =>
    if k == .ambientDeclaration then declaresAll cs
    else if k == .moduleDeclaration || k == .namespaceDeclaration then moduleNames (.node f k cs)
    else if k == .importAlias then aliasNames (.node f k cs)
    else plainNames (.node f k cs)

/-- The names that the declarations among some trees bind. -/
def declaresAll : List Tree → List String
  | [] => []
  | t :: ts => declares t ++ declaresAll ts

end

/-- The part of a listed name under which it is exported: its other name, if it has one. -/
def exportedPart? (specifier : Tree) : Option Tree :=
  (specifier.child? .alias).or (specifier.child? .name)

/-- The name under which a listed one is exported; nothing for the default export. -/
def listedName? (specifier : Tree) : Option String :=
  ((exportedPart? specifier).map writtenName).filter (· != "default")

/-- The names for all exports of another module. -/
def namespaceNames (statement : Tree) : List String :=
  ((statement.namedChildren.filter (·.kind == .namespaceExport)).flatMap fun t =>
    (t.namedChildren.getLast?).toList.map writtenName).filter (· != "default")

/-- The names for members of namespaces that a statement exports without declaring anything
else. -/
def aliasExports (statement : Tree) : List String :=
  (statement.namedChildren.filter (·.kind == .importAlias)).flatMap aliasNames

/-- The names that a statement exports, less `default`. -/
def statementExports (statement : Tree) : List String :=
  if statement.kind != .exportStatement || isDefaultExport statement then []
  else
    match statement.child? .declaration with
    | some d => declares d
    | none =>
      (specifiers statement).filterMap listedName? ++
        (namespaceNames statement ++ aliasExports statement)

/-- **The names that a script exports** explicitly, less `default`. All exports of another module
are no names. -/
def explicitExports (root : Tree) : List String := root.namedChildren.flatMap statementExports

/-! ## What the analysis makes of them -/

/-- The name with which the analysis records a listed one; nothing for the default export. -/
def recordedName? (specifier : Tree) : Option String :=
  (exportedUnder? specifier).filter (· != "default")

/-- Whether the analysis takes quotes off a listed name that belong to it. -/
def isMisread (specifier : Tree) : Bool :=
  exportedUnder? specifier != (exportedPart? specifier).map writtenName

/-- The names that a declaration binds without a record of it. -/
def overlookedNames (declaration : Tree) : List String :=
  if isOverlooked declaration.kind then declares declaration
  else if declaration.kind == .lexicalDeclaration || declaration.kind == .variableDeclaration then
    missedNames declaration
  else []

/-- The names with which a declaration is recorded though it does not bind them. -/
def spuriousNames (declaration : Tree) : List String :=
  if declaration.kind == .lexicalDeclaration || declaration.kind == .variableDeclaration then
    strayNames declaration
  else []

/-- The names that a statement exports by a form that the analysis overlooks. -/
def statementOverlooked (statement : Tree) : List String :=
  if statement.kind != .exportStatement || isDefaultExport statement then []
  else
    match statement.child? .declaration with
    | some d => overlookedNames d
    | none =>
      ((specifiers statement).filter isMisread).filterMap listedName? ++
        (namespaceNames statement ++ aliasExports statement)

/-- The names with which a statement is recorded without exporting them. -/
def statementSpurious (statement : Tree) : List String :=
  if statement.kind != .exportStatement || isDefaultExport statement then []
  else
    match statement.child? .declaration with
    | some d => spuriousNames d
    | none => ((specifiers statement).filter isMisread).filterMap recordedName?

/-- **Overlooked names**: those of declarations of what exists elsewhere, of modules and
namespaces, and of names for members of namespaces; those for all exports of another module; those
bound by the word `undefined` in a pattern; and those with quotes of their own at an end. -/
def overlookedExports (root : Tree) : List String := root.namedChildren.flatMap statementOverlooked

/-- **Spurious names**: those in exported patterns that are not bound by them, and what is left of
names with quotes of their own at an end. -/
def spuriousExports (root : Tree) : List String := root.namedChildren.flatMap statementSpurious

/-! ## Accounts -/

/-- What is recorded accounts for what is exported, but for the overlooked names, and holds no
other names but the spurious ones. -/
structure Accounts (recorded exported overlooked spurious : List String) : Prop where
  complete : ∀ name ∈ exported, name ∈ recorded ∨ name ∈ overlooked
  sound : ∀ name ∈ recorded, name ∈ exported ∨ name ∈ spurious
  overlooked_exported : ∀ name ∈ overlooked, name ∈ exported
  spurious_recorded : ∀ name ∈ spurious, name ∈ recorded

namespace Accounts

variable {recorded exported overlooked spurious recorded' exported' overlooked' spurious' :
  List String}

lemma refl (names : List String) : Accounts names names [] [] :=
  ⟨fun _ h => Or.inl h, fun _ h => Or.inl h, by simp, by simp⟩

/-- Where nothing is recorded, all exported names are overlooked. -/
lemma unrecorded (names : List String) : Accounts [] names names [] :=
  ⟨fun _ h => Or.inr h, by simp, fun _ h => h, by simp⟩

lemma append (h : Accounts recorded exported overlooked spurious)
    (h' : Accounts recorded' exported' overlooked' spurious') :
    Accounts (recorded ++ recorded') (exported ++ exported') (overlooked ++ overlooked')
      (spurious ++ spurious') := by
  constructor <;> intro name hname <;> simp only [List.mem_append] at hname ⊢ <;>
    rcases hname with hname | hname
  · exact (h.complete name hname).imp Or.inl Or.inl
  · exact (h'.complete name hname).imp Or.inr Or.inr
  · exact (h.sound name hname).imp Or.inl Or.inl
  · exact (h'.sound name hname).imp Or.inr Or.inr
  · exact Or.inl (h.overlooked_exported name hname)
  · exact Or.inr (h'.overlooked_exported name hname)
  · exact Or.inl (h.spurious_recorded name hname)
  · exact Or.inr (h'.spurious_recorded name hname)

lemma flatMap {parts : List Tree} {recorded exported overlooked spurious : Tree → List String}
    (h : ∀ t ∈ parts, Accounts (recorded t) (exported t) (overlooked t) (spurious t)) :
    Accounts (parts.flatMap recorded) (parts.flatMap exported) (parts.flatMap overlooked)
      (parts.flatMap spurious) := by
  induction parts with
  | nil => exact refl []
  | cons t ts ih =>
    obtain ⟨ht, hts⟩ := List.forall_mem_cons.mp h
    exact ht.append (ih hts)

/-- Where an account is even: what is missing is there for another reason, and so is what is too
much. -/
lemma forall_iff (h : Accounts recorded exported overlooked spurious) :
    (∀ name, name ∈ recorded ↔ name ∈ exported) ↔
      (∀ name ∈ overlooked, name ∈ recorded) ∧ ∀ name ∈ spurious, name ∈ exported := by
  constructor
  · intro heven
    refine ⟨fun name hname => ?_, fun name hname => ?_⟩
    · exact (heven name).mpr (h.overlooked_exported name hname)
    · exact (heven name).mp (h.spurious_recorded name hname)
  · rintro ⟨hoverlooked, hspurious⟩ name
    constructor
    · intro hname
      exact (h.sound name hname).elim id (hspurious name)
    · intro hname
      exact (h.complete name hname).elim id (hoverlooked name)

end Accounts

/-! ## Accounts of declarations and of lists -/

lemma accounts_variables {d : Tree}
    (h : d.kind = .lexicalDeclaration ∨ d.kind = .variableDeclaration) :
    Accounts ((declaredNames d).map (·.1)) (boundNames d) (missedNames d) (strayNames d) := by
  have hmem : ∀ name, name ∈ (declaredNames d).map (·.1) ∨ name ∈ missedNames d ↔
      name ∈ boundNames d ∨ name ∈ strayNames d := by
    intro name
    rw [← List.mem_append, ← List.mem_append]
    exact (perm_declaredNames h).mem_iff
  constructor
  · exact fun name hname => (hmem name).mpr (Or.inl hname)
  · exact fun name hname => (hmem name).mp (Or.inl hname)
  · intro name hname
    obtain ⟨p, hp, rfl⟩ := List.mem_map.mp hname
    exact List.mem_map_of_mem (List.mem_filter.mp hp).1
  · intro name hname
    obtain ⟨p, hp, rfl⟩ := List.mem_map.mp hname
    rw [declaredNames_eq h]
    have hstray := (perm_targetNames (targets d)).2.mem_iff.mpr (List.mem_append_right _ hp)
    exact List.mem_map_of_mem hstray

/-- What a declaration binds, by its kind. -/
lemma declares_eq (d : Tree) :
    declares d =
      if d.kind == .ambientDeclaration then declaresAll d.children
      else if d.kind == .moduleDeclaration || d.kind == .namespaceDeclaration then moduleNames d
      else if d.kind == .importAlias then aliasNames d
      else plainNames d := by
  cases d with
  | leaf f k gap text =>
    have hparts : (Tree.leaf f k gap text).children = [] := rfl
    simp [declares, declaresAll, moduleNames, aliasNames, plainNames, boundNames, targets,
      Tree.child?, Tree.namedChildren, hparts]
  | node f k cs => rw [declares]; rfl

lemma declares_of_not_overlooked {d : Tree} (h : isOverlooked d.kind = false) :
    declares d = plainNames d := by
  have hne : ∀ k, isOverlooked k = true → (d.kind == k) = false := by
    intro k hk
    refine beq_eq_false_iff_ne.mpr fun heq => ?_
    rw [heq, hk] at h
    cases h
  rw [declares_eq, hne _ rfl, hne _ rfl, hne _ rfl, hne _ rfl]
  rfl

lemma declaredNames_of_overlooked {d : Tree} (h : isOverlooked d.kind = true) :
    declaredNames d = [] := by
  unfold isOverlooked at h
  unfold declaredNames
  split at h
  · rename_i hk; rw [hk]; rfl
  · rename_i hk; rw [hk]; rfl
  · rename_i hk; rw [hk]; rfl
  · rename_i hk; rw [hk]; rfl
  · cases h

lemma declaredNames_of_plain {d : Tree}
    (h : ¬ (d.kind = .lexicalDeclaration ∨ d.kind = .variableDeclaration)) :
    (declaredNames d).map (·.1) = plainNames d := by
  have hvariables : (d.kind == .lexicalDeclaration || d.kind == .variableDeclaration) = false := by
    simpa using h
  unfold declaredNames plainNames
  rw [hvariables]
  cases declarationKind? d.kind with
  | none => rfl
  | some kind => cases d.child? .name <;> rfl

/-- A declaration is recorded with the names that it binds, but for those that are overlooked and
for the strays in its patterns. -/
lemma accounts_declaration (d : Tree) :
    Accounts ((declaredNames d).map (·.1)) (declares d) (overlookedNames d) (spuriousNames d) := by
  unfold overlookedNames spuriousNames
  cases hover : isOverlooked d.kind with
  | true =>
    have hvariables : (d.kind == .lexicalDeclaration || d.kind == .variableDeclaration) = false := by
      refine Bool.eq_false_iff.mpr fun h => ?_
      simp only [Bool.or_eq_true, beq_iff_eq] at h
      rcases h with h | h <;> rw [h] at hover <;> cases hover
    rw [declaredNames_of_overlooked hover, hvariables]
    exact Accounts.unrecorded _
  | false =>
    rw [declares_of_not_overlooked hover]
    by_cases hkind : d.kind = .lexicalDeclaration ∨ d.kind = .variableDeclaration
    · have hvariables : (d.kind == .lexicalDeclaration || d.kind == .variableDeclaration) = true := by
        simpa using hkind
      have hplain : plainNames d = boundNames d := by
        unfold plainNames
        rcases hkind with hkind | hkind <;> rw [hkind] <;> rfl
      rw [hvariables, hplain]
      exact accounts_variables hkind
    · have hvariables : (d.kind == .lexicalDeclaration || d.kind == .variableDeclaration) = false := by
        simpa using hkind
      rw [hvariables, declaredNames_of_plain hkind]
      exact Accounts.refl _

/-- A list is recorded with the names that it exports, but for those that are misread. -/
lemma accounts_specifiers (ts : List Tree) :
    Accounts (ts.filterMap recordedName?) (ts.filterMap listedName?)
      ((ts.filter isMisread).filterMap listedName?)
      ((ts.filter isMisread).filterMap recordedName?) := by
  -- what is not misread is recorded under its own name
  have hsame : ∀ t, isMisread t = false → recordedName? t = listedName? t := by
    intro t ht
    unfold isMisread at ht
    unfold recordedName? listedName?
    rw [bne_eq_false_iff_eq.mp ht]
  constructor <;> intro name hname <;> simp only [List.mem_filterMap, List.mem_filter] at hname ⊢
  · obtain ⟨t, ht, hname⟩ := hname
    cases hmisread : isMisread t with
    | true => exact Or.inr ⟨t, ⟨ht, hmisread⟩, hname⟩
    | false => exact Or.inl ⟨t, ht, by rw [hsame t hmisread, hname]⟩
  · obtain ⟨t, ht, hname⟩ := hname
    cases hmisread : isMisread t with
    | true => exact Or.inr ⟨t, ⟨ht, hmisread⟩, hname⟩
    | false => exact Or.inl ⟨t, ht, by rw [← hsame t hmisread, hname]⟩
  · obtain ⟨t, ⟨ht, -⟩, hname⟩ := hname
    exact ⟨t, ht, hname⟩
  · obtain ⟨t, ⟨ht, -⟩, hname⟩ := hname
    exact ⟨t, ht, hname⟩

/-! ## Accounts of statements and of scripts -/

/-- A list is recorded with the names of its entries, whatever they are exported as. -/
lemma map_fst_listedNames (kinds : List (String × ExportKind)) (statement : Tree) :
    (listedNames kinds statement).map (·.1) = (specifiers statement).filterMap recordedName? := by
  have hname : ∀ typeClause hasSource specifier,
      (specifierExport? typeClause hasSource kinds specifier).map (·.1) =
        recordedName? specifier := by
    intro typeClause hasSource specifier
    unfold specifierExport? recordedName? exportedUnder?
    dsimp only
    cases (specifier.child? .alias).or (specifier.child? .name) with
    | none => rfl
    | some exported =>
      rw [Option.map_some, Option.filter_some]
      dsimp only
      by_cases hdefault : String.ofList (unquoted exported.text) = "default"
      · simp [hdefault]
      · have heq : (String.ofList (unquoted exported.text) == "default") = false := by
          simpa using hdefault
        have hne : (String.ofList (unquoted exported.text) != "default") = true := by
          simpa using hdefault
        simp only [heq, hne, Bool.false_eq_true, if_false, if_true]
        split
        · rfl
        · split <;> rfl
  unfold listedNames specifiers
  cases statement.namedChildren.find? (·.kind == .exportClause) with
  | none => rfl
  | some clause =>
    rw [List.map_filterMap]
    exact List.filterMap_congr fun specifier _ => hname _ _ specifier

/-- A statement is recorded with the names that it exports, but for those of overlooked forms and
for spurious ones. -/
lemma accounts_statement (kinds : List (String × ExportKind)) (t : Tree) :
    Accounts ((exportedNames kinds t).map (·.1)) (statementExports t) (statementOverlooked t)
      (statementSpurious t) := by
  unfold exportedNames statementExports statementOverlooked statementSpurious
  split
  · exact Accounts.refl []
  · cases t.child? .declaration with
    | some d => exact accounts_declaration d
    | none =>
      have hlist := accounts_specifiers (specifiers t)
      have hother := Accounts.unrecorded (namespaceNames t ++ aliasExports t)
      have hall := hlist.append hother
      rw [List.append_nil, List.append_nil] at hall
      dsimp only
      rw [map_fst_listedNames]
      exact hall

lemma mem_names_iff {root : Tree} {name : String} :
    name ∈ (analyzeTree root true).names ↔
      name ∈ root.namedChildren.flatMap fun t =>
        (exportedNames (localKinds root.namedChildren) t).map (·.1) := by
  rw [mem_names_analyzeTree]
  simp only [true_or, and_true, List.mem_flatMap, List.mem_map, Prod.exists,
    exists_and_right, exists_eq_right]

/-- **When all exported names are recorded, and no others.** The analysis records each name once.
It records exactly the names that the script exports if and only if each overlooked name is also
recorded for another export, and each spurious name is also exported.

**Proof sketch.** Each form of an export is either looked at, and recorded with the names that it
exports but for the misread ones and the strays in patterns, or overlooked, and recorded with
nothing. These accounts add up over the statements. -/
theorem names_eq_explicitExports_iff (root : Tree) :
    (analyzeTree root true).names.Nodup ∧
    ((∀ name, name ∈ (analyzeTree root true).names ↔ name ∈ explicitExports root) ↔
      (∀ name ∈ overlookedExports root, name ∈ (analyzeTree root true).names) ∧
        ∀ name ∈ spuriousExports root, name ∈ explicitExports root) := by
  refine ⟨names_analyzeTree_nodup root true, ?_⟩
  have haccounts := Accounts.flatMap fun t (_ : t ∈ root.namedChildren) =>
    accounts_statement (localKinds root.namedChildren) t
  simp only [mem_names_iff]
  exact haccounts.forall_iff

/-- The tree of a script that names all exports of another module. -/
def namespaceExported : Tree :=
  parse (Dialect.ofFileName "X.ts") "export * as ns from './m';\n".toList

set_option maxRecDepth 10000 in
/-- A name for all exports of another module is exported and not recorded. -/
theorem not_mem_names_namespaceExported :
    namespaceExported.hasError = false ∧ explicitExports namespaceExported = ["ns"] ∧
      (analyzeTree namespaceExported true).names = [] := by
  decide +kernel

end Analysis

end ThemeOverride
