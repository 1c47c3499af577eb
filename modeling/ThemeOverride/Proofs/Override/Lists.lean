import ThemeOverride.Override.Synthesis
import ThemeOverride.Proofs.Override.Words

/-!
# Lists of names as scripts

An override lists names in braces, in the import of its source and in the clauses that pass names
on. However many names there are, the list is read as the names it was written with.

## Main definitions

* `ThemeOverride.ReadsItem` — a form reads an item of a list.
* `ThemeOverride.Lists` — some trees are the items of a list, with what stands between them.

## Main results

* `ThemeOverride.settles_lines`, `ThemeOverride.settles_single` — the items of a list, on lines of
  their own or a single one.
* `ThemeOverride.exists_list` — a list in braces is read as its items.

## Design

A list has any number of items, so no one template stands for it. Each item has a template, and
the readings of the items are put together by induction on the list.
-/

namespace ThemeOverride

open Script Analysis Pattern

variable {dialect : Dialect}

/-! ## Punctuation -/

/-- Whether all trees are punctuation. -/
def areTokens (trees : List Tree) : Bool :=
  trees.all fun t => t.kind == .token && t.isPlainlyUntyped

/-- Some trees are punctuation, of which none has a type. -/
def AreTokens (trees : List Tree) : Prop := ∀ t ∈ trees, t.kind = .token ∧ t.isUntyped

lemma areTokens_fill (F : Filling) {trees : List Tree} (h : areTokens trees) :
    AreTokens (trees.map (Tree.fill F)) := by
  intro t ht
  obtain ⟨t, hmem, rfl⟩ := List.mem_map.mp ht
  have htoken := List.all_eq_true.mp h t hmem
  rw [Bool.and_eq_true, beq_iff_eq] at htoken
  exact ⟨(t.kind_fill F).trans htoken.1, Tree.isUntyped_fill F htoken.2⟩

/-- What a form reads at the beginning of a template that stands for itself, it reads before any
text. -/
lemma exists_settles {form : Form} {front : List Char} {check : List Tree → Bool}
    {P : List Tree → Prop} (h : readsAs dialect form (front ++ ['\ue003']) check ['\ue003'])
    (hfront : front.all isOrdinary)
    (hP : ∀ (F : Filling) trees, check trees → P (trees.map (Tree.fill F))) (rest : List Char) :
    ∃ trees, Settles (grammar dialect) [] form (front ++ rest) (some (trees, rest)) ∧ P trees := by
  obtain ⟨trees, hcheck, hread⟩ :=
    settles_of_readsAs (filling isSeparator_nil isPlainName_a isPath_a rest) h
  have hrest : (filling isSeparator_nil isPlainName_a isPath_a rest).expand ['\ue003'] = rest :=
    List.append_nil rest
  rw [expand_before _ _ _ _ hfront, hrest] at hread
  exact ⟨_, hread, hP _ _ hcheck⟩

/-- A form that reads some punctuation reads it before any text. -/
lemma settles_tokens {form : Form} (front : List Char)
    (h : readsAs dialect form (front ++ ['\ue003']) areTokens ['\ue003'])
    (hfront : front.all isOrdinary) (rest : List Char) :
    ∃ trees, Settles (grammar dialect) [] form (front ++ rest) (some (trees, rest)) ∧
      AreTokens trees :=
  exists_settles h hfront (fun F _ => areTokens_fill F) rest

/-- A form that cannot read some punctuation cannot read a text that begins with it. -/
lemma settles_none {form : Form} {front : List Char}
    (h : failsOn dialect form ('\u3000' :: (front ++ ['\ue003']))) (hfront : front.all isOrdinary)
    {gap : List Char} (hgap : ∀ c ∈ gap, isSeparator c) (rest : List Char) :
    Settles (grammar dialect) [] form (gap ++ (front ++ rest)) none := by
  have hread := settles_of_failsOn (filling hgap isPlainName_a isPath_a rest) h
  rw [Filling.expand_cons, expand_before _ _ _ _ hfront] at hread
  exact hread

/-! ## Items -/

/-- A form reads an item, between blanks and a comma or a closing brace, as one tree of a kind that
has a property and no types. -/
def ReadsItem (dialect : Dialect) (form : Form) (item : String) (tells : Tree → Prop) : Prop :=
  ∀ stop ∈ [",", " \x7d"], ∀ gap rest, (∀ c ∈ gap, isSeparator c) →
    ∃ t, Settles (grammar dialect) [] form (gap ++ (item.toList ++ (stop.toList ++ rest)))
      (some ([t], stop.toList ++ rest)) ∧ tells t ∧ t.isUntyped

/-- Some trees are the items of a list, each with a property, between punctuation. -/
structure Lists {α : Type} (kind : Kind) (tells : α → Tree → Prop) (items : List α)
    (trees : List Tree) : Prop where
  items : List.Forall₂ tells items (trees.filter (·.kind == kind))
  kinds : ∀ t ∈ trees, t.kind = .token ∨ t.kind = kind
  untyped : ∀ t ∈ trees, t.isUntyped

namespace Lists

variable {α : Type} {kind : Kind} {tells : α → Tree → Prop} {items more : List α}
  {xs ys : List Tree}

lemma append (h : Lists kind tells items xs) (h' : Lists kind tells more ys) :
    Lists kind tells (items ++ more) (xs ++ ys) where
  items := by
    rw [List.filter_append]
    exact List.rel_append h.items h'.items
  kinds := List.forall_mem_append.mpr ⟨h.kinds, h'.kinds⟩
  untyped := List.forall_mem_append.mpr ⟨h.untyped, h'.untyped⟩

lemma of_tokens (hkind : kind ≠ .token) (h : AreTokens xs) : Lists kind tells ([] : List α) xs where
  items := by
    rw [List.filter_eq_nil_iff.mpr]
    · exact .nil
    · intro t ht
      rw [(h t ht).1]
      simpa using hkind.symm
  kinds t ht := Or.inl (h t ht).1
  untyped t ht := (h t ht).2

lemma singleton {item : α} {t : Tree} (hkind : t.kind = kind) (h : tells item t)
    (huntyped : t.isUntyped) : Lists kind tells [item] [t] where
  items := by
    rw [List.filter_cons_of_pos (by simpa using hkind)]
    exact .cons h .nil
  kinds := by simpa using Or.inr hkind
  untyped := by simpa using huntyped

end Lists

/-! ## Items between commas -/

section Commas

variable {α : Type} {kind : Kind} {form : Form} {tells : α → Tree → Prop} {text : α → String}

/-- An item on a line of its own, with a comma behind it. -/
def itemLine (item : String) : List Char := '\n' :: (indent.toList ++ (item.toList ++ [',']))

variable (dialect) in
lemma settles_comma (rest : List Char) :
    ∃ trees, Settles (grammar dialect) [] (Form.mark ",") (',' :: rest) (some (trees, rest)) ∧
      AreTokens trees :=
  settles_tokens [','] (by cases dialect <;> decide) rfl rest

/-- The items after the first one, each after a comma, up to the last comma. -/
lemma settles_more (hkind : kind ≠ .token) {tail : List Char}
    (htail : Settles (grammar dialect) [] form tail none) {items : List α}
    (hitems : ∀ a ∈ items, ReadsItem dialect form (text a) fun t => t.kind = kind ∧ tells a t) :
    ∃ trees, Settles (grammar dialect) [] (.many (.seq (Form.mark ",") form))
        (',' :: (items.flatMap (fun a => itemLine (text a)) ++ tail)) (some (trees, ',' :: tail)) ∧
      Lists kind tells items trees := by
  induction items with
  | nil =>
    obtain ⟨comma, hcomma, -⟩ := settles_comma dialect tail
    exact ⟨[], .many_nil (hcomma.seq_map htail), .of_tokens hkind (by simp [AreTokens])⟩
  | cons a items ih =>
    obtain ⟨more, hmore, hlists⟩ := ih fun b hb => hitems b (List.mem_cons_of_mem a hb)
    have hgap : ∀ c ∈ '\n' :: indent.toList, isSeparator c := List.all_eq_true.mp rfl
    obtain ⟨t, ht, ⟨htkind, htells⟩, huntyped⟩ := hitems a List.mem_cons_self "," (by simp) _
      (items.flatMap (fun a => itemLine (text a)) ++ tail) hgap
    obtain ⟨comma, hcomma, htokens⟩ := settles_comma dialect
      (('\n' :: indent.toList) ++ ((text a).toList ++
        (",".toList ++ (items.flatMap (fun a => itemLine (text a)) ++ tail))))
    refine ⟨(comma ++ [t]) ++ more, ?_, ?_⟩
    · have hread := (hcomma.seq ht).many_cons hmore
      simpa [itemLine] using hread
    · have hpunctuation : Lists kind tells [] comma := .of_tokens hkind htokens
      have hitem := hpunctuation.append (.singleton htkind htells huntyped)
      simpa using hitem.append hlists

/-- A list is read as its first item, the items after it, and perhaps a last comma. -/
lemma settles_commaList {xs ys zs : List Tree} {s t u v : List Char}
    (hfirst : Settles (grammar dialect) [] form s (some (xs, t)))
    (hmore : Settles (grammar dialect) [] (.many (.seq (Form.mark ",") form)) t (some (ys, u)))
    (hlast : Settles (grammar dialect) [] (Form.optional (Form.mark ",")) u (some (zs, v))) :
    Settles (grammar dialect) [] (Form.commaList form) s (some ((xs ++ ys) ++ zs, v)) :=
  .either_left ((hfirst.seq hmore).seq hlast)

/-- **Items on lines of their own** are read as a list. -/
lemma settles_lines (hkind : kind ≠ .token) {tail : List Char}
    (htail : Settles (grammar dialect) [] form tail none) {a : α} {items : List α}
    (hitems : ∀ b ∈ a :: items, ReadsItem dialect form (text b) fun t => t.kind = kind ∧ tells b t) :
    ∃ trees, Settles (grammar dialect) [] (Form.commaList form)
        ((a :: items).flatMap (fun b => itemLine (text b)) ++ tail) (some (trees, tail)) ∧
      Lists kind tells (a :: items) trees := by
  have hgap : ∀ c ∈ '\n' :: indent.toList, isSeparator c := List.all_eq_true.mp rfl
  obtain ⟨t, ht, ⟨htkind, htells⟩, huntyped⟩ := hitems a List.mem_cons_self "," (by simp) _
    (items.flatMap (fun b => itemLine (text b)) ++ tail) hgap
  have hothers : ∀ b ∈ items, ReadsItem dialect form (text b) fun t => t.kind = kind ∧ tells b t :=
    fun b hb => hitems b (List.mem_cons_of_mem a hb)
  obtain ⟨more, hmore, hlists⟩ := settles_more hkind htail hothers
  obtain ⟨comma, hcomma, htokens⟩ := settles_comma dialect tail
  refine ⟨([t] ++ more) ++ comma, ?_, ?_⟩
  · have hread := settles_commaList ht hmore hcomma.either_left
    simpa [itemLine] using hread
  · have hitem := (Lists.singleton htkind htells huntyped).append hlists
    simpa using hitem.append (.of_tokens hkind htokens)

/-- **One item** between blanks is read as a list. -/
lemma settles_single {a : α} (rest : List Char)
    (hitem : ReadsItem dialect form (text a) fun t => t.kind = kind ∧ tells a t) :
    ∃ trees, Settles (grammar dialect) [] (Form.commaList form)
        (' ' :: ((text a).toList ++ (" \x7d".toList ++ rest)))
        (some (trees, " \x7d".toList ++ rest)) ∧ Lists kind tells [a] trees := by
  obtain ⟨t, ht, ⟨htkind, htells⟩, huntyped⟩ :=
    hitem " \x7d" (by simp) [' '] rest (List.all_eq_true.mp rfl)
  have hfails : failsOn dialect (Form.mark ",") ('\u3000' :: (" \x7d".toList ++ ['\ue003'])) := by
    cases dialect <;> decide
  have hcomma : Settles (grammar dialect) [] (Form.mark ",") (" \x7d".toList ++ rest) none :=
    settles_none hfails rfl isSeparator_nil rest
  have hmore := Settles.many_nil (hcomma.seq_left_none (q := form))
  refine ⟨[t] ++ [] ++ [], ?_, .singleton htkind htells huntyped⟩
  exact settles_commaList ht hmore (.either_right hcomma .empty)

end Commas

/-! ## Lists in braces -/

/-- What stands between the braces of a list. -/
def listBody (names : List String) : List Char :=
  match names with
  | [name] => ' ' :: name.toList
  | _ => names.flatMap itemLine

/-- The end of a list, with its brace. -/
def listEnd (names : List String) : List Char :=
  match names with
  | [_] => " \x7d".toList
  | _ => "\n\x7d".toList

/-- The module that something is taken from, as an override writes it. -/
def moduleEnd (path : String) : List Char := " from '".toList ++ (path.toList ++ "';".toList)

lemma toList_join_empty (texts : List String) :
    (Text.join "" texts).toList = texts.flatMap String.toList := by
  induction texts with
  | nil => rfl
  | cons text rest ih =>
    cases rest with
    | nil => simp [Text.join]
    | cons second rest =>
      rw [Text.join, String.toList_append, String.toList_append, ih]
      · simp
      · simp

/-- Lines that end in a line break, behind one. -/
lemma flatMap_itemLine (names : List String) (rest : List Char) :
    '\n' :: ((names.map fun n => indent ++ n ++ ",\n").flatMap String.toList ++ rest) =
      names.flatMap itemLine ++ '\n' :: rest := by
  induction names with
  | nil => rfl
  | cons name names ih =>
    rw [List.map_cons, List.flatMap_cons, List.flatMap_cons, List.append_assoc, List.append_assoc,
      ← ih]
    simp [itemLine]

/-- A list in braces, piece by piece. -/
lemma toList_braced (keyword : String) (names : List String) (path : String) :
    (OverridePlan.braced keyword names path).toList =
      keyword.toList ++ (" \x7b".toList ++ (listBody names ++ (listEnd names ++ moduleEnd path))) := by
  have hlines : ∀ names : List String,
      (keyword ++ " \x7b\n" ++ Text.join "" (names.map fun n => indent ++ n ++ ",\n") ++
        "\x7d from '" ++ path ++ "';").toList =
      keyword.toList ++ (" \x7b".toList ++ (names.flatMap itemLine ++
        ("\n\x7d".toList ++ moduleEnd path))) := by
    intro names
    have hbreak := flatMap_itemLine names ("\x7d from '".toList ++ (path.toList ++ "';".toList))
    have hopen : " \x7b\n".toList = " \x7b".toList ++ ['\n'] := by decide
    have hclose : "\n\x7d".toList ++ " from '".toList = '\n' :: "\x7d from '".toList := by simp
    unfold moduleEnd
    simp only [String.toList_append, toList_join_empty, List.append_assoc, hopen]
    rw [List.singleton_append, hbreak, ← List.append_assoc "\n\x7d".toList, hclose,
      List.cons_append]
  unfold OverridePlan.braced listBody listEnd
  rcases names with - | ⟨name, - | ⟨second, names⟩⟩
  · exact hlines []
  · unfold moduleEnd
    simp
  · exact hlines (name :: second :: names)

/-- The same before another text. -/
lemma toList_braced_append (keyword : String) (names : List String) (path : String)
    (rest : List Char) :
    (OverridePlan.braced keyword names path).toList ++ rest =
      keyword.toList ++ (" \x7b".toList ++ (listBody names ++ (listEnd names ++
        (moduleEnd path ++ rest)))) := by
  rw [toList_braced]
  simp only [List.append_assoc]

section Braces

variable {α : Type} {kind : Kind} {form : Form} {tells : α → Tree → Prop} {text : α → String}

/-- **A list in braces** is read as its items, whatever follows. -/
theorem exists_list (hkind : kind ≠ .token) {items : List α} (hne : items ≠ []) {rest : List Char}
    (htail : Settles (grammar dialect) [] form ("\n\x7d".toList ++ rest) none)
    (hitems : ∀ a ∈ items, ReadsItem dialect form (text a) fun t => t.kind = kind ∧ tells a t) :
    ∃ trees, Settles (grammar dialect) [] (Form.braces (Form.commaList form))
        (" \x7b".toList ++ (listBody (items.map text) ++ (listEnd (items.map text) ++ rest)))
        (some (trees, rest)) ∧
      Lists kind tells items trees := by
  -- the list itself, up to the closing brace
  have hlist : ∃ trees, Settles (grammar dialect) [] (Form.commaList form)
      (listBody (items.map text) ++ (listEnd (items.map text) ++ rest))
      (some (trees, listEnd (items.map text) ++ rest)) ∧ Lists kind tells items trees := by
    rcases items with - | ⟨a, - | ⟨b, items⟩⟩
    · exact absurd rfl hne
    · exact settles_single rest (hitems a List.mem_cons_self)
    · have hlines := settles_lines hkind htail hitems
      rw [← List.flatMap_map] at hlines
      exact hlines
  obtain ⟨trees, hread, hlists⟩ := hlist
  have hopen : ∃ open', Settles (grammar dialect) [] (Form.mark "\x7b")
      (" \x7b".toList ++ (listBody (items.map text) ++ (listEnd (items.map text) ++ rest)))
      (some (open', listBody (items.map text) ++ (listEnd (items.map text) ++ rest))) ∧
      AreTokens open' :=
    settles_tokens " \x7b".toList (by cases dialect <;> decide) rfl _
  have hclose : ∃ close, Settles (grammar dialect) [] (Form.mark "\x7d")
      (listEnd (items.map text) ++ rest) (some (close, rest)) ∧ AreTokens close := by
    unfold listEnd
    split
    · exact settles_tokens " \x7d".toList (by cases dialect <;> decide) rfl _
    · exact settles_tokens "\n\x7d".toList (by cases dialect <;> decide) rfl _
  obtain ⟨open', hopen, hopenTokens⟩ := hopen
  obtain ⟨close, hclose, hcloseTokens⟩ := hclose
  refine ⟨open' ++ (trees ++ close), hopen.seq (hread.seq hclose), ?_⟩
  have hstart : Lists kind tells [] open' := .of_tokens hkind hopenTokens
  simpa using hstart.append (hlists.append (.of_tokens hkind hcloseTokens))

end Braces

end ThemeOverride
