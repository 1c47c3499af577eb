import ThemeOverride.Proofs.Override.Words

/-!
# Scaffolds as scripts

A scaffold of an export with a plain name is read as the statements it was written as, wherever it
stands in an override: it exports that name, and says something about types only where its kind
asks for that.

## Main definitions

* `ThemeOverride.ExportKind.writesTypes` — the scaffold of an export says something about types.
* `ThemeOverride.scaffoldNames` — the names that a scaffold exports.

## Main results

* `ThemeOverride.stands_of_template` — texts made from a template that is read before any text.
* `ThemeOverride.stands_renderExtension` — a scaffold stands wherever it is put.
-/

namespace ThemeOverride

open Script Analysis

variable {dialect : Dialect}

/-! ## Texts made from templates -/

/-- A text made from a template is read as the template is, and exports the names made from those
of the template. -/
lemma row_filled (F : Filling) {s t : List Char} {typed : Bool} {names : List (String × ExportKind)}
    (h : readsAs dialect (.rule .statement) s (tellsPlainly typed names) t) :
    ∃ trees, Row dialect (F.expand s) trees (F.expand t) ∧
      Tells typed (names.map (madeName F)) trees := by
  obtain ⟨trees, hcheck, hrow⟩ := row_of_readsAs F h
  exact ⟨_, hrow, tells_fill F hcheck⟩

/-- Whether a template between blanks and another one is read as one statement, which exports the
given names. -/
def standsBefore (dialect : Dialect) (next : List Char) (template : String) (typed : Bool)
    (names : List (String × ExportKind)) : Bool :=
  readsAs dialect (.rule .statement) ('\u3000' :: (template.toList ++ next))
    (tellsPlainly typed names) next

section

variable {name path : String} (hname : isPlainName name) (hpath : isPath path)
  {next : List Char} {template text : String} {typed : Bool} {names : List (String × ExportKind)}

/-- A text is made from a template, with a name and a path in their places. -/
def MadeFrom (template text : String) : Prop :=
  ∀ gap rest, ∀ hgap : ∀ c ∈ gap, isSeparator c,
    (filling hgap hname hpath rest).expand template.toList = text.toList

lemma row_of_standsBefore (h : standsBefore dialect next template typed names)
    (htext : MadeFrom hname hpath template text) {gap rest after : List Char}
    (hgap : ∀ c ∈ gap, isSeparator c) (hafter : (filling hgap hname hpath rest).expand next = after)
    {told : List (String × ExportKind)}
    (htold : names.map (madeName (filling hgap hname hpath rest)) = told) :
    ∃ trees, Row dialect (gap ++ (text.toList ++ after)) trees after ∧ Tells typed told trees := by
  have hrow := row_filled (filling hgap hname hpath rest) h
  rw [Filling.expand_cons, Filling.expand_append, htext gap rest hgap, hafter, htold] at hrow
  exact hrow

/-- **Texts made from a template.** A text stands if it is made from a template that is read before
any text. -/
lemma stands_of_template (h : standsBefore dialect ['\ue003'] template typed names)
    (htext : MadeFrom hname hpath template text) {told : List (String × ExportKind)}
    (htold : ∀ gap rest, ∀ hgap : ∀ c ∈ gap, isSeparator c,
      names.map (madeName (filling hgap hname hpath rest)) = told) :
    Stands dialect text.toList (Tells typed told) := by
  intro gap next hgap _
  exact row_of_standsBefore hname hpath h htext hgap (List.append_nil next) (htold gap next hgap)

end

/-! ## Scaffolds -/

/-- Whether the scaffold of an export says something about types. -/
def ExportKind.writesTypes (kind : ExportKind) (isTypescript : Bool) : Bool :=
  match kind with
  | .interface | .type => true
  | .function | .object | .enum => isTypescript
  | .class | .value | .reference => false

/-- The names that a scaffold exports: the name of its export, and that of the type where it keeps
what an enumeration is to types. -/
def scaffoldNames (kind : ExportKind) (isTypescript : Bool) (name : String) :
    List (String × ExportKind) :=
  match kind with
  | .class => [(name, .class)]
  | .function => [(name, .function)]
  | .object => [(name, .object)]
  | .interface => [(name, .interface)]
  | .type => [(name, .type)]
  | .enum => (name, .value) :: if isTypescript then [(name, .type)] else []
  | .value | .reference => [(name, .value)]

/-- A scaffold as a template. -/
def scaffoldTemplate (kind : ExportKind) (computesProps isTypescript : Bool) : String :=
  scaffold kind computesProps isTypescript "\ue000" "\ue001"

/-- Whether the scaffold of a kind is read before a text. -/
def scaffoldStands (dialect : Dialect) (next : List Char) (kind : ExportKind)
    (computesProps isTypescript : Bool) : Bool :=
  standsBefore dialect next (scaffoldTemplate kind computesProps isTypescript)
    (kind.writesTypes isTypescript) (scaffoldNames kind isTypescript "\ue000")

/-- The kinds whose scaffolds say something about types where there are any, each with whether it
computes properties. -/
def annotatedKinds : List (ExportKind × Bool) :=
  [(.function, false), (.function, true), (.object, false)]

lemma scaffoldStands_untyped : ∀ p ∈ annotatedKinds,
    scaffoldStands .markup ['\ue003'] p.1 p.2 false := by
  decide +kernel

/-- The statement that keeps what an enumeration is to types. -/
def typeStatement (name source : String) : String := "export type " ++ name ++ " = " ++ source ++ ";"

/-- Statements with an end of their own are read before any text, in both dialects: the scaffolds
that say something about types, those that do not depend on whether there are types, and the
statement that keeps what an enumeration is to types. -/
lemma standsBefore_ended : ∀ dialect ∈ [Dialect.markup, .typed],
    (∀ p ∈ annotatedKinds, scaffoldStands dialect ['\ue003'] p.1 p.2 true) ∧
    (∀ kind ∈ [ExportKind.interface, .type, .value],
      scaffoldStands dialect ['\ue003'] kind false false) ∧
    standsBefore dialect ['\ue003'] (typeStatement "\ue000" "\ue001") true [("\ue000", .type)] := by
  refine List.forall_mem_cons.mpr ⟨⟨?_, ?_, ?_⟩, List.forall_mem_singleton.mpr ⟨?_, ?_, ?_⟩⟩
  all_goals decide +kernel

/-- The body of a class may end a statement, so that all that may follow is looked at. -/
lemma scaffoldStands_class : ∀ dialect ∈ [Dialect.markup, .typed],
    ∀ next ∈ ["\n", "\nimport\ue003", "\n\nexport\ue003", "\n\n@\ue003"],
      scaffoldStands dialect next.toList .class false false := by
  decide +kernel

/-! ## Scaffolds stand -/

section

variable {name path : String} (hname : isPlainName name) (hpath : isPath path)

/-- A scaffold is made from its template. -/
lemma madeFrom_scaffold (kind : ExportKind) (computesProps isTypescript : Bool) :
    MadeFrom hname hpath (scaffoldTemplate kind computesProps isTypescript)
      (scaffold kind computesProps isTypescript name (sourceLocalName name)) := by
  intro gap rest hgap
  have hordinary : ∀ s : String, s.toList.all isOrdinary →
      (filling hgap hname hpath rest).expand s.toList = s.toList := fun s h =>
    Filling.expand_ordinary _ h
  unfold scaffoldTemplate scaffold indent
  cases kind with
  | function =>
    cases computesProps <;> cases isTypescript <;>
      simp (disch := decide) only [String.toList_append, Filling.expand_append, hordinary,
        expand_name, expand_localName, if_true, if_false, Bool.false_eq_true]
  | object =>
    cases isTypescript <;>
      simp (disch := decide) only [String.toList_append, Filling.expand_append, hordinary,
        expand_name, expand_localName, if_true, if_false, Bool.false_eq_true]
  | «enum» =>
    cases isTypescript <;>
      simp (disch := decide) only [String.toList_append, Filling.expand_append, hordinary,
        expand_name, expand_localName, if_true, if_false, Bool.false_eq_true]
  | «class» =>
    simp (disch := decide) only [String.toList_append, Filling.expand_append, hordinary,
      expand_name, expand_localName]
  | interface =>
    simp (disch := decide) only [String.toList_append, Filling.expand_append, hordinary,
      expand_name, expand_localName]
  | type =>
    simp (disch := decide) only [String.toList_append, Filling.expand_append, hordinary,
      expand_name, expand_localName]
  | value =>
    simp (disch := decide) only [String.toList_append, Filling.expand_append, hordinary,
      expand_name, expand_localName]
  | reference =>
    simp (disch := decide) only [String.toList_append, Filling.expand_append, hordinary,
      expand_name, expand_localName]

lemma madeFrom_typeStatement :
    MadeFrom hname hpath (typeStatement "\ue000" "\ue001")
      (typeStatement name (sourceLocalName name)) := by
  intro gap rest hgap
  have hordinary : ∀ s : String, s.toList.all isOrdinary →
      (filling hgap hname hpath rest).expand s.toList = s.toList := fun s h =>
    Filling.expand_ordinary _ h
  unfold typeStatement
  simp (disch := decide) only [String.toList_append, Filling.expand_append, hordinary,
    expand_name, expand_localName]

include hname

lemma map_madeName_scaffoldNames {gap rest : List Char} (hgap : ∀ c ∈ gap, isSeparator c)
    (kind : ExportKind) (isTypescript : Bool) :
    (scaffoldNames kind isTypescript "\ue000").map (madeName (filling hgap hname hpath rest)) =
      scaffoldNames kind isTypescript name := by
  cases kind <;> cases isTypescript <;> simp [scaffoldNames]

/-- The scaffold of a kind stands if its template is read before any text. -/
lemma stands_scaffold {kind : ExportKind} {computesProps isTypescript : Bool}
    (h : scaffoldStands dialect ['\ue003'] kind computesProps isTypescript) :
    Stands dialect (scaffold kind computesProps isTypescript name (sourceLocalName name)).toList
      (Tells (kind.writesTypes isTypescript) (scaffoldNames kind isTypescript name)) :=
  stands_of_template hname isPath_a h
    (madeFrom_scaffold hname isPath_a kind computesProps isTypescript) fun _ _ hgap =>
      map_madeName_scaffoldNames hname isPath_a hgap kind isTypescript

/-- The scaffold of a class stands before all that may follow. -/
lemma stands_scaffold_class (computesProps isTypescript : Bool) :
    Stands dialect (scaffold .class computesProps isTypescript name (sourceLocalName name)).toList
      (Tells false [(name, .class)]) := by
  have hdialect : dialect ∈ [Dialect.markup, .typed] := by cases dialect <;> simp
  intro gap next hgap hnext
  -- one reading of the template for each way a text may follow
  have hread : ∀ front ∈ ["\nimport", "\n\nexport", "\n\n@"], ∀ rest, ∃ trees, Row dialect
      (gap ++ ((scaffold .class false false name (sourceLocalName name)).toList ++
        (front.toList ++ rest))) trees (front.toList ++ rest) ∧
      Tells false [(name, .class)] trees := by
    intro front hfront rest
    have hordinary : ∀ front ∈ ["\nimport", "\n\nexport", "\n\n@"],
        front.toList.all isOrdinary := by decide
    have hstands : ∀ front ∈ ["\nimport", "\n\nexport", "\n\n@"],
        scaffoldStands dialect (front.toList ++ ['\ue003']) .class false false := by
      simp only [List.forall_mem_cons]
      exact ⟨scaffoldStands_class dialect hdialect "\nimport\ue003" (by simp),
        scaffoldStands_class dialect hdialect "\n\nexport\ue003" (by simp),
        scaffoldStands_class dialect hdialect "\n\n@\ue003" (by simp), by simp⟩
    exact row_of_standsBefore hname isPath_a
      (hstands front hfront)
      (madeFrom_scaffold hname isPath_a .class false false) hgap
      (expand_before hname isPath_a hgap rest (hordinary front hfront))
      (map_madeName_scaffoldNames hname isPath_a hgap .class false)
  cases hnext with
  | finish =>
    exact row_of_standsBefore hname isPath_a
      (scaffoldStands_class dialect hdialect "\n" (by simp))
      (madeFrom_scaffold hname isPath_a .class false false) hgap
      (Filling.expand_ordinary (filling hgap hname isPath_a []) rfl)
      (map_madeName_scaffoldNames hname isPath_a hgap .class false)
  | «import» rest => exact hread "\nimport" (by simp) rest
  | «export» rest => exact hread "\n\nexport" (by simp) rest
  | decorator rest => exact hread "\n\n@" (by simp) rest

/-- The scaffold of an enumeration with types is that of a value, with a statement that keeps what
the enumeration is to types. -/
lemma stands_scaffold_enum (computesProps : Bool) :
    Stands dialect (scaffold .enum computesProps true name (sourceLocalName name)).toList
      (Tells true [(name, .value), (name, .type)]) := by
  have hdialect : dialect ∈ [Dialect.markup, .typed] := by cases dialect <;> simp
  intro gap next hgap _
  have hbreak : ∀ c ∈ ['\n'], isSeparator c := List.all_eq_true.mp rfl
  obtain ⟨xs, hxs, hvalue⟩ := row_of_standsBefore hname isPath_a
    ((standsBefore_ended dialect hdialect).2.1 .value (by simp))
    (madeFrom_scaffold hname isPath_a .value false false) hgap
    (List.append_nil ('\n' :: ((typeStatement name (sourceLocalName name)).toList ++ next)))
    (map_madeName_scaffoldNames hname isPath_a hgap .value false)
  obtain ⟨ys, hys, htype⟩ := row_of_standsBefore hname isPath_a
    (standsBefore_ended dialect hdialect).2.2 (madeFrom_typeStatement hname isPath_a) hbreak
    (List.append_nil next) (by rw [List.map_singleton, madeName_name])
  refine ⟨xs ++ ys, ?_, (hvalue.mono (by simp)).append htype⟩
  have hrow := hxs.append hys
  have htext : (scaffold .enum computesProps true name (sourceLocalName name)).toList =
      (scaffold .value false false name (sourceLocalName name)).toList ++
        '\n' :: (typeStatement name (sourceLocalName name)).toList := by
    unfold scaffold typeStatement
    simp
  rw [htext]
  simpa only [List.append_assoc, List.cons_append] using hrow

end

/-- Scaffolds that do not depend on whether there are types. -/
lemma scaffold_eq {kind : ExportKind} (h : kind ∉ [.function, .object, .enum])
    (computesProps isTypescript : Bool) (name source : String) :
    scaffold kind computesProps isTypescript name source = scaffold kind false false name source := by
  cases kind <;> first | rfl | simp at h

/-- **A scaffold stands**, and exports the name of its export. -/
theorem stands_renderExtension {record : ExportRecord} {isTypescript : Bool}
    (hname : isPlainName record.name) (hdialect : isTypescript = false → dialect = .markup) :
    Stands dialect (renderExtension record isTypescript).toList
      (Tells (record.kind.writesTypes isTypescript)
        (scaffoldNames record.kind isTypescript record.name)) := by
  have hended := standsBefore_ended dialect (by cases dialect <;> simp)
  unfold renderExtension
  cases record.kind with
  | «class» => exact stands_scaffold_class hname _ _
  | function =>
    have hmem : ∀ computesProps, (.function, computesProps) ∈ annotatedKinds := by decide
    cases isTypescript with
    | false =>
      rw [hdialect rfl]
      exact stands_scaffold hname (scaffoldStands_untyped (.function, _) (hmem _))
    | true =>
      exact stands_scaffold hname (hended.1 (.function, _) (hmem _))
  | object =>
    cases isTypescript with
    | false =>
      rw [hdialect rfl]
      exact stands_scaffold hname (scaffoldStands_untyped (.object, false) (by decide))
    | true =>
      exact stands_scaffold hname (hended.1 (.object, false) (by decide))
  | interface =>
    rw [scaffold_eq (by decide)]
    exact stands_scaffold hname (hended.2.1 .interface (by simp))
  | type =>
    rw [scaffold_eq (by decide)]
    exact stands_scaffold hname (hended.2.1 .type (by simp))
  | value =>
    rw [scaffold_eq (by decide)]
    exact stands_scaffold hname (hended.2.1 .value (by simp))
  | reference =>
    rw [scaffold_eq (by decide)]
    exact stands_scaffold hname (hended.2.1 .value (by simp))
  | «enum» =>
    cases isTypescript with
    | false => exact stands_scaffold hname (hended.2.1 .value (by simp))
    | true => exact stands_scaffold_enum hname _

end ThemeOverride
