import Mathlib.Data.List.Flatten
import Mathlib.Data.List.Forall2
import Mathlib.Tactic.Lemma
import ThemeOverride.Override.CopiedImport

/-!
# What copied imports bind

An override copies an import without the bindings whose names the source exports. It does so
where the default export refers to one of the bindings that are left, and where the import may
stand in the language of the override.

## Main definitions

* `ThemeOverride.ImportRecord.without` — an import without the bindings of some names.
* `ThemeOverride.ImportRecord.IsCopied` — an override copies an import.
* `ThemeOverride.ImportRecord.Copies` — a text is the copy of an import.
* `ThemeOverride.copiedNames` — the names that the copied imports bind.

## Main results

* `ThemeOverride.copiedImports_forall₂` — the copied imports, one by one.
* `ThemeOverride.mem_copiedNames` — the names that the copied imports bind.
-/

namespace ThemeOverride

namespace ImportRecord

/-- An import without the bindings of some names. -/
def without (r : ImportRecord) (names : List String) : ImportRecord :=
  { r with clauses := r.clauses.filter fun c => !names.contains c.localName }

/-- The default export refers to a binding of the import that is not exported, and the import may
stand in the language of the override. -/
def IsCopied (r : ImportRecord) (exported references : List String) (isTypescript : Bool) : Prop :=
  (∃ n ∈ (r.without exported).bindings, n ∈ references) ∧ (r.typeOnly → isTypescript)

instance (r : ImportRecord) (exported references : List String) (isTypescript : Bool) :
    Decidable (r.IsCopied exported references isTypescript) :=
  inferInstanceAs (Decidable ((∃ n ∈ (r.without exported).bindings, n ∈ references) ∧
    (r.typeOnly → isTypescript)))

/-- A text is the copy of an import without its exported bindings: its statement as it stands,
but for the module, where nothing is left out, or a statement with the other bindings. -/
def Copies (r : ImportRecord) (source : List Char) (exported : List String)
    (directory text : String) : Prop :=
  (r.without exported = r ∧
    text = if r.isRelative then r.withModule source (r.modulePath directory)
      else String.ofList (byteSlice source r.span.1 r.span.2)) ∨
  text = (r.without exported).rebuild (r.without exported).bindings (r.modulePath directory)

section

variable (r : ImportRecord) (exported : List String)

lemma mem_bindings_without {n : String} :
    n ∈ (r.without exported).bindings ↔ n ∈ r.bindings ∧ n ∉ exported := by
  unfold bindings without
  simp only [List.mem_map, List.mem_filter, Bool.not_eq_true', List.contains_eq_mem,
    decide_eq_false_iff_not]
  constructor
  · rintro ⟨c, ⟨hc, hn⟩, rfl⟩
    exact ⟨⟨c, hc, rfl⟩, hn⟩
  · rintro ⟨⟨c, hc, rfl⟩, hn⟩
    exact ⟨c, ⟨hc, hn⟩, rfl⟩

lemma bindings_without :
    (r.without exported).bindings = r.bindings.filter (!exported.contains ·) := by
  unfold bindings without
  rw [List.filter_map]
  rfl

lemma kept_eq : r.kept exported = (r.without exported).bindings.eraseDups := by
  rw [bindings_without]
  rfl

/-- A statement rebuilt with the bindings kept is that of the import without the others. -/
lemma rebuild_kept (modulePath : String) :
    r.rebuild (r.kept exported) modulePath =
      (r.without exported).rebuild (r.without exported).bindings modulePath := by
  have hclauses : ∀ braced : Bool,
      r.clauses.filter (fun c => c.braced == braced && (r.kept exported).contains c.localName) =
        (r.without exported).clauses.filter fun c =>
          c.braced == braced && (r.without exported).bindings.contains c.localName := by
    intro braced
    change _ = (r.clauses.filter fun c => !exported.contains c.localName).filter _
    rw [List.filter_filter]
    refine List.filter_congr fun c hc => ?_
    have hleft : (r.without exported).bindings.contains c.localName =
        !exported.contains c.localName := by
      rw [Bool.eq_iff_iff, List.contains_iff_mem, mem_bindings_without]
      have hmem : c.localName ∈ r.bindings := List.mem_map_of_mem hc
      simp [hmem]
    have hkept : (r.kept exported).contains c.localName = !exported.contains c.localName := by
      rw [← hleft, Bool.eq_iff_iff, List.contains_iff_mem, List.contains_iff_mem, kept_eq,
        List.mem_eraseDups]
    rw [hkept, hleft]
    cases exported.contains c.localName with
    | true => simp
    | false => simp
  unfold rebuild
  simp only [hclauses]
  rfl

lemma length_eraseDups_le (names : List String) : names.eraseDups.length ≤ names.length := by
  induction h : names.length using Nat.strongRecOn generalizing names with
  | _ n ih =>
    cases names with
    | nil => simp
    | cons name rest =>
      have hfilter := List.length_filter_le (fun other => !other == name) rest
      have hrest := ih _ (by rw [← h, List.length_cons]; omega)
        (rest.filter fun other => !other == name) rfl
      rw [List.eraseDups_cons, List.length_cons]
      rw [List.length_cons] at h
      omega

/-- Where as many bindings are kept as there are, none is left out. -/
lemma without_eq_self (h : ¬ (r.kept exported).length < r.bindings.length) :
    r.without exported = r := by
  have hkept : (r.kept exported).length ≤ (r.without exported).clauses.length := by
    have hbindings : (r.without exported).bindings.length = (r.without exported).clauses.length :=
      List.length_map _
    rw [kept_eq, ← hbindings]
    exact length_eraseDups_le _
  have hclauses : (r.without exported).clauses = r.clauses := by
    unfold without at hkept ⊢
    dsimp only at hkept ⊢
    rw [bindings, List.length_map] at h
    have hle := List.length_filter_le (fun c => !exported.contains c.localName) r.clauses
    exact List.filter_eq_self.mpr (List.length_filter_eq_length_iff.mp (by omega))
  cases r
  simpa only [without, mk.injEq, true_and] using hclauses

lemma copied?_isSome (source : List Char) (references : List String) (directory : String)
    (isTypescript : Bool) :
    (r.copied? source exported references directory isTypescript).isSome ↔
      r.IsCopied exported references isTypescript := by
  have hany : (r.kept exported).any references.contains ↔
      ∃ n ∈ (r.without exported).bindings, n ∈ references := by
    rw [kept_eq, List.any_eq_true]
    simp only [List.mem_eraseDups, List.contains_eq_mem, decide_eq_true_eq]
  unfold copied? IsCopied
  rw [← hany]
  dsimp only
  cases hused : (r.kept exported).any references.contains with
  | false => simp
  | true =>
    cases htypes : r.typeOnly && !isTypescript with
    | true =>
      rw [Bool.and_eq_true, Bool.not_eq_true'] at htypes
      simp [htypes]
    | false =>
      have hmay : r.typeOnly → isTypescript := by simpa using htypes
      have hsome : ∀ a b c : String, ∀ p q : Prop, ∀ [Decidable p] [Decidable q],
          (if p then some a else if q then some b else some c).isSome := by
        intro a b c p q _ _
        split
        · rfl
        · split <;> rfl
      simpa [hsome] using hmay

/-- **A copied import** is its statement as it stands, but for the module, or one with the
bindings that are left. -/
theorem copies_of_copied? {source : List Char} {references : List String} {directory text : String}
    {isTypescript : Bool}
    (h : r.copied? source exported references directory isTypescript = some text) :
    r.Copies source exported directory text := by
  unfold copied? at h
  dsimp only at h
  split at h
  · cases h
  · split at h
    · cases h
    · split at h
      · rw [Option.some.injEq] at h
        rw [← h, rebuild_kept]
        exact Or.inr rfl
      · rename_i hlength
        have hself := r.without_eq_self exported hlength
        split at h
        · rename_i hrelative
          rw [Option.some.injEq] at h
          rw [← h]
          exact Or.inl ⟨hself, by rw [if_pos hrelative]⟩
        · rename_i hrelative
          rw [Option.some.injEq] at h
          rw [← h]
          exact Or.inl ⟨hself, by rw [if_neg hrelative]⟩

end

end ImportRecord

section

variable (exports : ExportMap) (references : List String) (isTypescript : Bool)

/-- The imports that an override copies. -/
def copiedRecords : List ImportRecord :=
  exports.imports.filter fun r => r.IsCopied exports.names references isTypescript

/-- The names that the copied imports bind. -/
def copiedNames : List String :=
  (copiedRecords exports references isTypescript).flatMap fun r =>
    (r.without exports.names).bindings

/-- **The copied imports** are the copies of the records, in their order. -/
theorem copiedImports_forall₂ (source directory : String) :
    List.Forall₂ (fun r text => r.Copies source.toList exports.names directory text)
      (copiedRecords exports references isTypescript)
      (copiedImports exports source references directory isTypescript) := by
  unfold copiedRecords copiedImports
  induction exports.imports with
  | nil => exact .nil
  | cons r rest ih =>
    have hsome := r.copied?_isSome exports.names source.toList references directory isTypescript
    by_cases hr : r.IsCopied exports.names references isTypescript
    · obtain ⟨text, htext⟩ := Option.isSome_iff_exists.mp (hsome.mpr hr)
      rw [List.filter_cons_of_pos (by simpa using hr)]
      simp only [List.filterMap_cons, htext]
      exact .cons (r.copies_of_copied? exports.names htext) ih
    · have htext : r.copied? source.toList exports.names references directory isTypescript =
          none := by
        rw [← Option.not_isSome_iff_eq_none, hsome]
        exact hr
      rw [List.filter_cons_of_neg (by simpa using hr)]
      simp only [List.filterMap_cons, htext]
      exact ih

/-- The copied imports bind no name that the source exports. -/
lemma notMem_names_of_mem_copiedNames {n : String}
    (h : n ∈ copiedNames exports references isTypescript) : n ∉ exports.names := by
  obtain ⟨r, -, hn⟩ := List.mem_flatMap.mp h
  exact (r.mem_bindings_without exports.names).mp hn |>.2

/-- The copied imports bind only what the imports of the source bind, in their order. -/
lemma copiedNames_sublist :
    (copiedNames exports references isTypescript).Sublist
      (exports.imports.flatMap ImportRecord.bindings) := by
  unfold copiedNames copiedRecords
  refine (List.filter_sublist.flatMap _).trans (List.Sublist.flatMap_right _ fun r _ => ?_)
  rw [ImportRecord.bindings_without]
  exact List.filter_sublist

/-- **What the copied imports bind** of what the default export refers to: the bindings of all
imports that may stand in the language of the override, but for what the source exports. -/
theorem mem_copiedNames {n : String} (hn : n ∈ references) :
    n ∈ copiedNames exports references isTypescript ↔
      n ∉ exports.names ∧ ∃ r ∈ exports.imports, n ∈ r.bindings ∧ (r.typeOnly → isTypescript) := by
  unfold copiedNames copiedRecords
  simp only [List.mem_flatMap, List.mem_filter, decide_eq_true_eq,
    ImportRecord.mem_bindings_without]
  constructor
  · rintro ⟨r, ⟨hr, hcopied⟩, hbound, hnot⟩
    exact ⟨hnot, r, hr, hbound, hcopied.2⟩
  · rintro ⟨hnot, r, hr, hbound, hmay⟩
    have hleft : n ∈ (r.without exports.names).bindings :=
      (r.mem_bindings_without exports.names).mpr ⟨hbound, hnot⟩
    exact ⟨r, ⟨hr, ⟨n, hleft, hn⟩, hmay⟩, hbound, hnot⟩

end

end ThemeOverride
