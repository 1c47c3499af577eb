import ThemeOverride.Proofs.Export.Kinds
import ThemeOverride.Proofs.Script.Halves
import ThemeOverride.Proofs.Script.Traversal

/-!
# Wrapped initializers

An initializer may stand in brackets and be asserted to have a type, any number of times over and
with comments in between. What its declarator exports is to be told from the bare expression. The
analysis looks for it among the named parts of a wrapper, and a comment is one of them.

## Main definitions

* `ThemeOverride.Script.Hole` — a node with one part left out, `fill` puts a tree there.
* `ThemeOverride.Analysis.Hole.isWrapper`, `isClear` — brackets and assertions around an
  expression, and those with no comment in the way.
* `ThemeOverride.Analysis.InitializerPlace` — the place of an initializer in a script.
* `ThemeOverride.Analysis.recordedKind?` — the kind that an analysis records of a name.

## Main results

* `ThemeOverride.Analysis.valueKind_fillAll` — what a wrapped expression is, for all wrappers.
* `ThemeOverride.Analysis.recordedKind?_wrapped` — wrappers with no comment in the way leave all
  recorded kinds as they are.

## Design

A wrapper is a node around the expression, so a nesting is a list of holes and what is proved of
it goes by induction on that list. The script around the initializer is a list of holes as well:
what is read off each of them is the same for two initializers of one kind.
-/

namespace ThemeOverride

open Script

namespace Script

/-! ## Equality of trees -/

mutual

/-- Whether two trees are the same. -/
def Tree.decEq : (t u : Tree) → Decidable (t = u)
  | .leaf f k gap s, .leaf f' k' gap' s' =>
    decidable_of_iff (f = f' ∧ k = k' ∧ gap = gap' ∧ s = s') (by rw [Tree.leaf.injEq])
  | .leaf .., .node .. => isFalse nofun
  | .node .., .leaf .. => isFalse nofun
  | .node f k cs, .node f' k' cs' =>
    have := Tree.decEqAll cs cs'
    decidable_of_iff (f = f' ∧ k = k' ∧ cs = cs') (by rw [Tree.node.injEq])

/-- Whether two rows of trees are the same. -/
def Tree.decEqAll : (ts us : List Tree) → Decidable (ts = us)
  | [], [] => isTrue rfl
  | [], _ :: _ => isFalse nofun
  | _ :: _, [] => isFalse nofun
  | t :: ts, u :: us =>
    have := Tree.decEq t u
    have := Tree.decEqAll ts us
    decidable_of_iff (t = u ∧ ts = us) (by rw [List.cons.injEq])

end

instance : DecidableEq Tree := Tree.decEq

/-! ## Other blanks before a tree -/

mutual

/-- A tree with other blanks before its first token. -/
def Tree.withGap (gap : List Char) : Tree → Tree
  | .leaf f k _ s => .leaf f k gap s
  | .node f k cs => .node f k (Tree.withGapAll gap cs)

/-- Some trees in a row with other blanks before the first token. -/
def Tree.withGapAll (gap : List Char) : List Tree → List Tree
  | [] => []
  | t :: ts => t.withGap gap :: ts

end

@[simp] lemma Tree.field_withField (f : Field) (t : Tree) : (t.withField f).field = some f := by
  cases t <;> rfl

@[simp] lemma Tree.kind_withGap (gap : List Char) (t : Tree) : (t.withGap gap).kind = t.kind := by
  cases t with
  | leaf => rw [Tree.withGap]; rfl
  | node => rw [Tree.withGap]; rfl

/-! ## Nodes with one part left out -/

/-- A node with one of its parts left out. -/
structure Hole where
  field : Option Field
  kind : Kind
  before : List Tree
  after : List Tree

namespace Hole

/-- The node with a tree as the part left out. -/
def fill (h : Hole) (t : Tree) : Tree := .node h.field h.kind (h.before ++ t :: h.after)

/-- A tree within several nodes, the outermost first. -/
def fillAll (hs : List Hole) (t : Tree) : Tree := hs.foldr fill t

variable (h : Hole) {t u : Tree}

@[simp] lemma kind_fill : (h.fill t).kind = h.kind := rfl

@[simp] lemma field_fill : (h.fill t).field = h.field := rfl

/-- The named parts of a node are those before the part left out, this part, and those after. -/
lemma namedChildren_fill (ht : t.kind.isNamed) :
    (h.fill t).namedChildren = h.before.filter (·.kind.isNamed) ++
      t :: h.after.filter (·.kind.isNamed) := by
  rw [Tree.namedChildren, fill, Tree.children, List.filter_append,
    List.filter_cons_of_pos (by simpa using ht)]

/-- The first part in a role is the same for two trees in one role, or is these trees. -/
lemma child?_fill (hfield : t.field = u.field) (f : Field) :
    (h.fill t).child? f = (h.fill u).child? f ∨
      (h.fill t).child? f = some t ∧ (h.fill u).child? f = some u := by
  simp only [Tree.child?, fill, Tree.children, List.find?_append, List.find?_cons, hfield]
  cases h.before.find? (·.field == some f) with
  | some c => exact Or.inl rfl
  | none =>
    cases u.field == some f with
    | true => exact Or.inr ⟨rfl, rfl⟩
    | false => exact Or.inl rfl

/-- Keywords are read off the other parts where the part left out is none. -/
lemma hasKeyword_fill (ht : t.kind ≠ .token) (hu : u.kind ≠ .token) (keyword : String) :
    (h.fill t).hasKeyword keyword = (h.fill u).hasKeyword keyword := by
  have ht' : (t.kind == .token) = false := by simpa using ht
  have hu' : (u.kind == .token) = false := by simpa using hu
  simp only [Tree.hasKeyword, fill, Tree.children, List.any_append, List.any_cons, ht', hu',
    Bool.false_and]

/-- Whether a node with a part left out is a wrapper for that part: brackets, with only
punctuation and comments before the expression, an assertion behind it, or one in front of it.
Comments may stand wherever they are not before the wrapper or after it. -/
def wraps : Bool :=
  match h.kind with
  | .parenthesized => h.before.all fun t => t.kind == .token || t.kind == .comment
  | .asExpression | .satisfiesExpression | .nonNull => h.before.isEmpty
  | .typeAssertion => h.after.isEmpty
  | _ => false

/-- Whether no comment comes between an opening bracket and the expression. -/
def isClear : Bool := h.kind != .parenthesized || h.before.all (·.kind == .token)

end Hole

end Script

namespace Analysis

/-! ## What is in a wrapper -/

lemma valueKind_withField (f : Field) (t : Tree) : valueKind (t.withField f) = valueKind t := by
  cases t with
  | leaf => rw [Tree.withField, valueKind, valueKind]
  | node => rw [Tree.withField, valueKind, valueKind]

/-- A leaf has no parts, so that its kind decides what it is. -/
lemma valueKind_leaf (f : Option Field) (k : Kind) (gap s : List Char) :
    valueKind (.leaf f k gap s) = plainValueKind k := by
  rw [valueKind]

/-- A comment has no kind of its own, whatever is taken to be in it. -/
lemma valueKind_of_comment {t : Tree} (h : t.kind = .comment) : valueKind t = .value := by
  cases t with
  | leaf f k gap s =>
    obtain rfl : k = .comment := h
    exact valueKind_leaf ..
  | node f k cs =>
    obtain rfl : k = .comment := h
    rw [valueKind]
    rfl

lemma firstValueKind_append {ts : List Tree} (h : ∀ t ∈ ts, ¬ t.kind.isNamed) (us : List Tree) :
    firstValueKind (ts ++ us) = firstValueKind us := by
  induction ts with
  | nil => rfl
  | cons t ts ih =>
    rw [List.cons_append, firstValueKind, if_neg (h t List.mem_cons_self),
      ih fun u hu => h u (List.mem_cons_of_mem _ hu)]

lemma lastValueKind_append (found : ExportKind) (ts us : List Tree) :
    lastValueKind found (ts ++ us) = lastValueKind (lastValueKind found ts) us := by
  induction ts generalizing found with
  | nil => rw [List.nil_append, lastValueKind]
  | cons t ts ih => rw [List.cons_append, lastValueKind, ih, lastValueKind]

/-- Blanks before an expression do not change what it is. -/
lemma valueKind_withGap (gap : List Char) (t : Tree) : valueKind (t.withGap gap) = valueKind t := by
  induction t using Tree.induction_parts with
  | leaf f k g s => rw [Tree.withGap, valueKind_leaf, valueKind_leaf]
  | node f k cs ih =>
    cases cs with
    | nil => rw [Tree.withGap, Tree.withGapAll]
    | cons c cs =>
      have hc := ih c List.mem_cons_self
      have hfirst : firstValueKind (c.withGap gap :: cs) = firstValueKind (c :: cs) := by
        rw [firstValueKind, firstValueKind, Tree.kind_withGap, hc]
      have hlast : lastValueKind .value (c.withGap gap :: cs) = lastValueKind .value (c :: cs) := by
        rw [lastValueKind, lastValueKind, Tree.kind_withGap, hc]
      rw [Tree.withGap, Tree.withGapAll, valueKind, valueKind, hfirst, hlast]

/-! ## Wrappers -/

/-- A comment in brackets, before the expression, is the first named part of them. -/
lemma firstValueKind_of_comment {before : List Tree}
    (h : ∀ t ∈ before, t.kind = .token ∨ t.kind = .comment)
    (hcomment : ∃ t ∈ before, t.kind ≠ .token) (after : List Tree) :
    firstValueKind (before ++ after) = .value := by
  induction before with
  | nil =>
    obtain ⟨t, ht, -⟩ := hcomment
    cases ht
  | cons t ts ih =>
    rw [List.cons_append, firstValueKind]
    rcases h t List.mem_cons_self with hk | hk
    · rw [if_neg (by rw [hk]; exact Bool.false_ne_true)]
      obtain ⟨u, hu, huk⟩ := hcomment
      have hu' : u ∈ ts := (List.mem_cons.mp hu).resolve_left fun heq => huk (heq ▸ hk)
      exact ih (fun v hv => h v (List.mem_cons_of_mem _ hv)) ⟨u, hu', huk⟩
    · rw [if_pos (by rw [hk]; rfl)]
      exact valueKind_of_comment hk

lemma valueKind_node {k : Kind} (hk : isWrapper k) (hne : k ≠ .typeAssertion) (f : Option Field)
    (cs : List Tree) : valueKind (.node f k cs) = firstValueKind cs := by
  rw [valueKind, if_neg (by simpa using hne), if_pos hk]

lemma valueKind_typeAssertion (f : Option Field) (cs : List Tree) :
    valueKind (.node f .typeAssertion cs) = lastValueKind .value cs := by
  rw [valueKind, if_pos (beq_self_eq_true _)]

/-- A wrapper with no comment in the way is what the expression in it is. With one in the way it
is a mere value. -/
lemma valueKind_wrapper {h : Hole} (hh : h.wraps) {t : Tree} (ht : t.kind.isNamed) :
    valueKind (h.fill t) = if h.isClear then valueKind t else .value := by
  obtain ⟨f, k, before, after⟩ := h
  -- of an assertion behind it, the expression is the first part
  have behind : isWrapper k → k ≠ .typeAssertion → k ≠ .parenthesized → before = [] →
      valueKind (Hole.fill ⟨f, k, before, after⟩ t) =
        if Hole.isClear ⟨f, k, before, after⟩ then valueKind t else .value := by
    rintro hk hlast hbrackets rfl
    have hclear : Hole.isClear ⟨f, k, [], after⟩ = true := by simp [Hole.isClear]
    rw [hclear, if_pos rfl, Hole.fill, valueKind_node hk hlast, List.nil_append, firstValueKind,
      if_pos ht]
  unfold Hole.wraps at hh
  split at hh
  · rename_i hk
    obtain rfl : k = .parenthesized := hk
    have hnode : valueKind (Hole.fill ⟨f, .parenthesized, before, after⟩ t) =
        firstValueKind (before ++ t :: after) := valueKind_node (k := .parenthesized) rfl nofun f _
    rw [hnode]
    by_cases hclear : before.all (·.kind == .token)
    · have hnot : ∀ c ∈ before, ¬ c.kind.isNamed := by
        intro c hc
        rw [beq_iff_eq.mp (List.all_eq_true.mp hclear c hc)]
        exact Bool.false_ne_true
      rw [if_pos (by simpa [Hole.isClear] using hclear), firstValueKind_append hnot,
        firstValueKind, if_pos ht]
    · rw [if_neg (by simpa [Hole.isClear] using hclear)]
      exact firstValueKind_of_comment (by simpa using hh) (by simpa using hclear) _
  · rename_i hk
    obtain rfl : k = .asExpression := hk
    exact behind rfl nofun nofun (List.isEmpty_iff.mp hh)
  · rename_i hk
    obtain rfl : k = .satisfiesExpression := hk
    exact behind rfl nofun nofun (List.isEmpty_iff.mp hh)
  · rename_i hk
    obtain rfl : k = .nonNull := hk
    exact behind rfl nofun nofun (List.isEmpty_iff.mp hh)
  · rename_i hk
    obtain rfl : k = .typeAssertion := hk
    obtain rfl : after = [] := List.isEmpty_iff.mp hh
    have hclear : Hole.isClear ⟨f, .typeAssertion, before, []⟩ = true := rfl
    rw [hclear, if_pos rfl, Hole.fill, valueKind_typeAssertion, lastValueKind_append,
      lastValueKind, lastValueKind, if_pos ht]
  · cases hh

/-- A wrapper is an expression itself. -/
lemma isNamed_of_wraps {h : Hole} (hh : h.wraps) : h.kind.isNamed := by
  unfold Hole.wraps at hh
  split at hh <;> simp_all [Kind.isNamed]

lemma isNamed_fillAll {ws : List Hole} (hws : ∀ w ∈ ws, w.wraps) {e : Tree}
    (he : e.kind.isNamed) : (Hole.fillAll ws e).kind.isNamed := by
  cases ws with
  | nil => exact he
  | cons w ws => exact isNamed_of_wraps (hws w List.mem_cons_self)

/-- **What a wrapped expression is.** Through any number of wrappers it is what the bare
expression is where no comment comes in the way, and a mere value otherwise. -/
theorem valueKind_fillAll {ws : List Hole} (hws : ∀ w ∈ ws, w.wraps) {e : Tree}
    (he : e.kind.isNamed) :
    valueKind (Hole.fillAll ws e) =
      if ∀ w ∈ ws, w.isClear then valueKind e else .value := by
  induction ws with
  | nil => rw [if_pos (by simp)]; rfl
  | cons w ws ih =>
    have hrest : ∀ v ∈ ws, v.wraps := fun v hv => hws v (List.mem_cons_of_mem _ hv)
    have hfill : Hole.fillAll (w :: ws) e = w.fill (Hole.fillAll ws e) := rfl
    rw [hfill, valueKind_wrapper (hws w List.mem_cons_self) (isNamed_fillAll hrest he), ih hrest]
    simp only [List.forall_mem_cons]
    by_cases hw : w.isClear
    · simp only [hw, if_true, true_and]
    · simp only [hw, Bool.false_eq_true, if_false, false_and]

/-! ## The place of an initializer -/

/-- The place of an initializer in a script: the parts around it, from the script itself down to
the declarator. The declaration is a statement, or part of an export statement. -/
structure InitializerPlace where
  script : Hole
  exported : Option Hole
  declaration : Hole
  declarator : Hole
  exports : ∀ statement ∈ exported,
    statement.kind = .exportStatement ∧ declaration.field = some .declaration
  declares : declaration.kind = .lexicalDeclaration ∨ declaration.kind = .variableDeclaration
  binds : declarator.kind = .variableDeclarator

namespace InitializerPlace

/-- The declaration with an initializer. -/
def declare (p : InitializerPlace) (t : Tree) : Tree :=
  p.declaration.fill (p.declarator.fill (t.withField .value))

/-- The statement with an initializer. -/
def state (p : InitializerPlace) (t : Tree) : Tree :=
  match p.exported with
  | none => p.declare t
  | some statement => statement.fill (p.declare t)

/-- The script with an initializer. -/
def fill (p : InitializerPlace) (t : Tree) : Tree := p.script.fill (p.state t)

variable (p : InitializerPlace) {t u : Tree}

lemma declarationKind?_declaration : declarationKind? p.declaration.kind = none := by
  rcases p.declares with h | h <;> rw [h] <;> rfl

lemma kind_declare (t : Tree) : (p.declare t).kind = p.declaration.kind := rfl

lemma kind_declare_ne_token (t : Tree) : (p.declare t).kind ≠ .token := by
  rw [kind_declare]
  rcases p.declares with h | h <;> rw [h] <;> exact nofun

/-- The names of a declarator are bound to what its initializer is. -/
lemma declaratorNames_fill (h : valueKind t = valueKind u) :
    declaratorNames (p.declarator.fill (t.withField .value)) =
      declaratorNames (p.declarator.fill (u.withField .value)) := by
  have hfield : (t.withField .value).field = (u.withField .value).field := by
    rw [Tree.field_withField, Tree.field_withField]
  have hname : (p.declarator.fill (t.withField .value)).child? .name =
      (p.declarator.fill (u.withField .value)).child? .name := by
    rcases p.declarator.child?_fill hfield .name with heq | ⟨ht, -⟩
    · exact heq
    · have hbad := List.find?_some ht
      rw [Tree.field_withField] at hbad
      exact absurd hbad (by decide)
  have hvalue : ((p.declarator.fill (t.withField .value)).child? .value).map valueKind =
      ((p.declarator.fill (u.withField .value)).child? .value).map valueKind := by
    rcases p.declarator.child?_fill hfield .value with heq | ⟨ht, hu⟩
    · rw [heq]
    · rw [ht, hu, Option.map_some, Option.map_some, valueKind_withField, valueKind_withField, h]
  unfold declaratorNames
  rw [hname, hvalue]

/-- What a declaration binds is settled by what the initializer is. -/
lemma declaredNames_declare (h : valueKind t = valueKind u) :
    declaredNames (p.declare t) = declaredNames (p.declare u) := by
  have hnamed : ∀ v : Tree, (p.declarator.fill v).kind.isNamed := fun v => by
    rw [Hole.kind_fill, p.binds]; rfl
  have hkind : ∀ v : Tree, ((p.declarator.fill v).kind == .variableDeclarator) = true :=
    fun v => beq_iff_eq.mpr p.binds
  have hdeclarators :
      ((p.declare t).namedChildren.filter (·.kind == .variableDeclarator)).flatMap
        declaratorNames =
      ((p.declare u).namedChildren.filter (·.kind == .variableDeclarator)).flatMap
        declaratorNames := by
    unfold declare
    rw [Hole.namedChildren_fill _ (hnamed _), Hole.namedChildren_fill _ (hnamed _),
      List.filter_append, List.filter_append, List.filter_cons, List.filter_cons, hkind, hkind,
      if_pos rfl, if_pos rfl, List.flatMap_append, List.flatMap_append, List.flatMap_cons,
      List.flatMap_cons, p.declaratorNames_fill h]
  unfold declaredNames
  simp only [kind_declare, p.declarationKind?_declaration]
  rw [hdeclarators]
  rfl

/-- A statement binds the same to names with initializers of one kind. -/
lemma localKinds_state (h : valueKind t = valueKind u) :
    localKinds [p.state t] = localKinds [p.state u] := by
  have hdeclared := p.declaredNames_declare h
  unfold state localKinds
  simp only [List.flatMap_cons, List.flatMap_nil, List.append_nil]
  cases hs : p.exported with
  | none =>
    have hkind : ∀ v : Tree, ((p.declare v).kind == .exportStatement) = false := fun v => by
      rw [kind_declare]
      rcases p.declares with hd | hd <;> rw [hd] <;> rfl
    simp only [hkind, Bool.false_eq_true, if_false, hdeclared]
  | some statement =>
    have hkind : ∀ v : Tree, ((statement.fill v).kind == .exportStatement) = true := fun v =>
      beq_iff_eq.mpr (p.exports statement hs).1
    simp only [hkind, if_true]
    -- either another part is taken for the declaration, or the two declarations are
    rcases statement.child?_fill (t := p.declare t) (u := p.declare u) rfl .declaration with
      heq | ⟨ht, hu⟩
    · rw [heq]
    · rw [ht, hu]
      exact congrArg List.reverse hdeclared

/-- An export statement with a declaration exports what the declaration binds. -/
lemma exportedNames_of_declaration (kinds : List (String × ExportKind)) {s d : Tree}
    (hd : s.child? .declaration = some d) : exportedNames kinds s =
      if s.kind != .exportStatement || isDefaultExport s then [] else declaredNames d := by
  unfold exportedNames
  rw [hd]

/-- A statement exports the same, of the same kinds, with initializers of one kind. -/
lemma exportedNames_state (h : valueKind t = valueKind u) (kinds : List (String × ExportKind)) :
    exportedNames kinds (p.state t) = exportedNames kinds (p.state u) := by
  have hdeclared := p.declaredNames_declare h
  unfold state
  cases hs : p.exported with
  | none =>
    have hkind : ∀ v : Tree, ((p.declare v).kind != .exportStatement) = true := fun v => by
      rw [kind_declare]
      rcases p.declares with hd | hd <;> rw [hd] <;> rfl
    unfold exportedNames
    simp only [hkind, Bool.true_or, if_true]
  | some statement =>
    have hfield := (p.exports statement hs).2
    have hdefault : isDefaultExport (statement.fill (p.declare t)) =
        isDefaultExport (statement.fill (p.declare u)) := by
      unfold isDefaultExport
      rw [statement.hasKeyword_fill (p.kind_declare_ne_token t) (p.kind_declare_ne_token u)]
      rfl
    dsimp only
    rcases statement.child?_fill (t := p.declare t) (u := p.declare u) rfl .declaration with
      heq | ⟨ht, hu⟩
    · have hsome : ((statement.fill (p.declare u)).child? .declaration).isSome := by
        rw [Tree.child?, List.find?_isSome]
        exact ⟨p.declare u, by simp [Hole.fill, Tree.children], beq_iff_eq.mpr hfield⟩
      obtain ⟨d, hd⟩ := Option.isSome_iff_exists.mp hsome
      rw [exportedNames_of_declaration kinds hd, exportedNames_of_declaration kinds (heq ▸ hd),
        hdefault]
      rfl
    · rw [exportedNames_of_declaration kinds ht, exportedNames_of_declaration kinds hu, hdefault,
        hdeclared]
      rfl

/-- A script exports the same, of the same kinds, with initializers of one kind. -/
lemma exportList_fill (h : valueKind t = valueKind u) :
    exportList (p.fill t) = exportList (p.fill u) := by
  have hnamed : ∀ v : Tree, (p.state v).kind.isNamed := by
    intro v
    unfold state
    cases hs : p.exported with
    | none =>
      simp only [kind_declare]
      rcases p.declares with hd | hd <;> rw [hd] <;> rfl
    | some statement =>
      simp only [Hole.kind_fill, (p.exports statement hs).1]
      rfl
  have happend : ∀ xs ys : List Tree, localKinds (xs ++ ys) = localKinds ys ++ localKinds xs := by
    intro xs ys
    rw [localKinds, List.flatMap_append, List.reverse_append]
    rfl
  have hkinds : localKinds (p.fill t).namedChildren = localKinds (p.fill u).namedChildren := by
    unfold fill
    rw [Hole.namedChildren_fill _ (hnamed t), Hole.namedChildren_fill _ (hnamed u),
      ← List.singleton_append, ← List.singleton_append (x := p.state u), happend, happend, happend,
      happend, p.localKinds_state h]
  unfold exportList
  rw [hkinds]
  unfold fill
  rw [Hole.namedChildren_fill _ (hnamed t), Hole.namedChildren_fill _ (hnamed u),
    List.flatMap_append, List.flatMap_append, List.flatMap_cons, List.flatMap_cons,
    p.exportedNames_state h]

end InitializerPlace

/-! ## Recorded kinds -/

/-- The kind that an analysis records of an exported name. -/
def recordedKind? (m : ExportMap) (name : String) : Option ExportKind :=
  (m.named.find? (·.name == name)).map (·.kind)

/-- The recorded kind is that of the first export under the name that is not left out. -/
lemma recordedKind?_analyzeTree (root : Tree) (includeTypes : Bool) (name : String) :
    recordedKind? (analyzeTree root includeTypes) name =
      ((exportList root).filter fun n => includeTypes || !n.2.isTypeOnly).lookup name := by
  unfold recordedKind? analyzeTree
  dsimp only
  rw [find?_firstOfEachName (List.not_mem_nil (a := name)), ← lookup_map_records,
    ← map_records root, List.filter_map]
  rfl

/-- Two scripts that differ in the initializer at a place record the same kinds where the
initializers are of one kind. -/
lemma recordedKind?_eq_of_fill (place : InitializerPlace) {t u : Tree}
    (h : valueKind t = valueKind u) {fileName s s' : String}
    (hs : parse (Dialect.ofFileName fileName) s.toList = place.fill t)
    (hs' : parse (Dialect.ofFileName fileName) s'.toList = place.fill u) (includeTypes : Bool)
    (name : String) :
    recordedKind? (analyzeExports s fileName includeTypes) name =
      recordedKind? (analyzeExports s' fileName includeTypes) name := by
  unfold analyzeExports
  rw [hs, hs', recordedKind?_analyzeTree, recordedKind?_analyzeTree, place.exportList_fill h]

/-- **Wrapped initializers.** With brackets, assertions and comments around an initializer, a
script has all its exports recorded under the kinds that they have with the bare expression, as
long as no comment comes between an opening bracket and the expression. Where one does, they are
recorded as if the initializer were a mere value. -/
theorem recordedKind?_wrapped (place : InitializerPlace) {ws : List Hole}
    (hws : ∀ w ∈ ws, w.wraps) {e : Tree} (he : e.kind.isNamed) {gap : List Char}
    {fileName source wrapped : String}
    (hsource : parse (Dialect.ofFileName fileName) source.toList = place.fill (e.withGap gap))
    (hwrapped : parse (Dialect.ofFileName fileName) wrapped.toList =
      place.fill (Hole.fillAll ws e)) (includeTypes : Bool) :
    ((∀ w ∈ ws, w.isClear) ∨ valueKind e = .value → ∀ name,
      recordedKind? (analyzeExports wrapped fileName includeTypes) name =
        recordedKind? (analyzeExports source fileName includeTypes) name) ∧
    (¬ (∀ w ∈ ws, w.isClear) → ∀ m plain, valueKind m = .value →
      parse (Dialect.ofFileName fileName) plain.toList = place.fill m → ∀ name,
        recordedKind? (analyzeExports wrapped fileName includeTypes) name =
          recordedKind? (analyzeExports plain fileName includeTypes) name) := by
  have hkind := valueKind_fillAll hws he
  constructor
  · intro hclear name
    refine recordedKind?_eq_of_fill place ?_ hwrapped hsource includeTypes name
    rw [hkind, valueKind_withGap]
    split
    · rfl
    · rename_i hnot
      exact (hclear.resolve_left hnot).symm
  · intro hnot m plain hm hplain name
    refine recordedKind?_eq_of_fill place ?_ hwrapped hplain includeTypes name
    rw [hkind, if_neg hnot, hm]

/-! ## An exported constant -/

/-- A keyword or a punctuation mark. -/
def mark (gap text : String) : Tree := .leaf none .token gap.toList text.toList

/-- The place of the initializer of a constant `a` that a script exports. -/
def constantPlace : InitializerPlace where
  script := ⟨none, .program, [], [.leaf none .terminator ['\n'] []]⟩
  exported := some ⟨none, .exportStatement, [mark "" "export"], []⟩
  declaration := ⟨some .declaration, .lexicalDeclaration, [mark " " "const"], [mark "" ";"]⟩
  declarator := ⟨none, .variableDeclarator,
    [.leaf (some .name) .identifier [' '] ['a'], mark " " "="], []⟩
  exports := by
    intro statement h
    obtain rfl := Option.mem_some_iff.mp h
    exact ⟨rfl, rfl⟩
  declares := Or.inl rfl
  binds := rfl

/-- An object with nothing in it. -/
def emptyObject : Tree := .node none .object [mark "" "\x7b", mark "" "\x7d"]

/-- A comment with a blank before it. -/
def remark (text : String) : Tree := .leaf none .comment [' '] text.toList

/-- The name of a type. -/
def typeName (gap text : String) : Tree := .leaf none .typeIdentifier gap.toList text.toList

/-- All sorts of wrappers, with comments after the expression. -/
def allWrappers : List Hole :=
  [⟨none, .satisfiesExpression, [], [mark " " "satisfies", remark "/* e */", typeName " " "V"]⟩,
    ⟨none, .asExpression, [], [remark "/* d */", mark " " "as", typeName " " "U"]⟩,
    ⟨none, .nonNull, [], [mark "" "!"]⟩,
    ⟨none, .parenthesized, [mark " " "("], [remark "/* c */", mark "" ")"]⟩,
    ⟨none, .typeAssertion, [.node none .typeArguments
      [mark "" "<", typeName "" "T", mark "" ">"]], []⟩]

set_option maxRecDepth 10000 in
theorem recordedKind?_wrapped_allWrappers :
    (∀ w ∈ allWrappers, w.wraps ∧ w.isClear) ∧
    recordedKind? (analyzeExports
        "export const a = (<T>\x7b\x7d /* c */)! /* d */ as U satisfies /* e */ V;\n"
        "X.ts" false) "a" =
      recordedKind? (analyzeExports "export const a = \x7b\x7d;\n" "X.ts" false) "a" := by
  have hws : ∀ w ∈ allWrappers, w.wraps ∧ w.isClear := by decide +kernel
  have hsource : parse (Dialect.ofFileName "X.ts") "export const a = \x7b\x7d;\n".toList =
      constantPlace.fill (emptyObject.withGap [' ']) := by decide +kernel
  have hwrapped : parse (Dialect.ofFileName "X.ts")
      "export const a = (<T>\x7b\x7d /* c */)! /* d */ as U satisfies /* e */ V;\n".toList =
        constantPlace.fill (Hole.fillAll allWrappers emptyObject) := by decide +kernel
  have hkinds := recordedKind?_wrapped constantPlace (fun w hw => (hws w hw).1) rfl hsource
    hwrapped false
  exact ⟨hws, hkinds.1 (Or.inl fun w hw => (hws w hw).2) "a"⟩

/-- Brackets with a comment between the opening one and the expression. -/
def remarked : Hole :=
  ⟨none, .parenthesized, [mark " " "(", .leaf none .comment [] "/* c */".toList], [mark "" ")"]⟩

set_option maxRecDepth 10000 in
/-- A comment before the expression in brackets is taken for the expression: an object is
recorded as a mere value. -/
theorem recordedKind?_remarked :
    remarked.wraps = true ∧
    parse (Dialect.ofFileName "X.ts") "export const a = \x7b\x7d;\n".toList =
      constantPlace.fill (emptyObject.withGap [' ']) ∧
    parse (Dialect.ofFileName "X.ts") "export const a = (/* c */ \x7b\x7d);\n".toList =
      constantPlace.fill (Hole.fillAll [remarked] (emptyObject.withGap [' '])) ∧
    recordedKind? (analyzeExports "export const a = \x7b\x7d;\n" "X.ts" true) "a" =
      some .object ∧
    recordedKind? (analyzeExports "export const a = (/* c */ \x7b\x7d);\n" "X.ts" true) "a" =
      some .value := by
  decide +kernel

end Analysis

end ThemeOverride
