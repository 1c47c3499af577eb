import Mathlib.Data.Nat.Digits.Defs
import Mathlib.Data.Nat.Digits.Lemmas
import Mathlib.Data.Set.Card
import ThemeOverride.Module.Candidates
import ThemeOverride.Proofs.Disk.Resolve

/-!
# Roots of modules

A module is looked up by the path at which it is installed, and it belongs to the root that is
found at or above the end of that path. If the marker of modules is named by a relative path, this
root is the real directory that the path leads to. Whatever the marker, there are only finitely
many roots, since a system refuses to look at paths that are too long.

## Main definitions

* `ThemeOverride.moduleRoots` — the roots that some path belongs to.
* `ThemeOverride.parentAt` — where the parent of the module at a root is installed.

## Main results

* `ThemeOverride.moduleRoot_eq_resolvePath` — an installed module has its real directory as its
  root.
* `ThemeOverride.finite_moduleRoots`, `ThemeOverride.ncard_moduleRoots_le` — how many roots there
  are.
* `ThemeOverride.length_le_of_isOpen` — how many directories a disk has.
-/

namespace ThemeOverride

variable {d : Disk} {settings : Settings} {marker : String} {p q root : Path}

/-! ## Resolved paths -/

lemma resolvePath_eq_ok_iff : resolvePath d p = .ok q ↔ d.resolve? p = some q := by
  unfold resolvePath
  cases d.resolve? p with
  | none => simp
  | some path => simp

/-- A resolved path begins at the root. -/
lemma root_of_resolvePath (h : resolvePath d p = .ok q) : q.root = "/" := by
  rw [resolvePath_eq_ok_iff] at h
  unfold Disk.resolve? at h
  split at h
  · cases h
    rfl
  · dsimp only at h
    split at h
    · cases h
    · cases h
      rfl

/-- What is at or above a path begins at its root, with some of its names. -/
lemma mem_ancestors (h : q ∈ p :: p.ancestors) : q.root = p.root ∧ q.names <+: p.names := by
  suffices hgo : ∀ n (p : Path), ∀ q ∈ Path.ancestors.go n p, q.root = p.root ∧ q.names <+: p.names by
    rcases List.mem_cons.mp h with rfl | h
    · exact ⟨rfl, List.prefix_refl _⟩
    · exact hgo _ p q h
  intro n
  induction n with
  | zero => intro p q hq; simp [Path.ancestors.go] at hq
  | succ n ih =>
    intro p q hq
    rcases List.mem_cons.mp hq with rfl | hq
    · exact ⟨rfl, List.dropLast_prefix _⟩
    · obtain ⟨hroot, hnames⟩ := ih p.parent q hq
      exact ⟨hroot, hnames.trans (List.dropLast_prefix _)⟩

lemma isAbsolute_child (hp : p.isAbsolute = true) (s : String) : (p.child s).isAbsolute = true := by
  unfold Path.child Path.join
  split
  · assumption
  · exact hp

/-! ## Installed modules -/

/-- An installed module is found at an absolute path to a directory with the marker, and nothing
is noted. -/
lemma installed_eq_some {name : String} {notes : List Note}
    (h : installed d marker name p = .ok (some q, notes)) :
    q.isAbsolute = true ∧ isModuleRoot d marker q = true ∧ notes = [] := by
  unfold installed at h
  cases hbase : resolvePath d p with
  | error f => rw [hbase] at h; cases h
  | ok base =>
    rw [hbase] at h
    simp only [bind, Except.bind] at h
    split at h
    · cases hroot : resolvePath d (base.child name) with
      | error f => rw [hroot] at h; cases h
      | ok root =>
        rw [hroot] at h
        simp only [pure, Except.pure, Except.ok.injEq, Prod.mk.injEq] at h
        obtain ⟨h, rfl⟩ := h
        split at h
        · rename_i hmarker
          cases h
          exact ⟨by simp [Path.isAbsolute, root_of_resolvePath hroot], hmarker, rfl⟩
        · cases h
    · cases hfound : nearest? base fun above => isModuleRoot d marker (installedIn name above) with
      | none => rw [hfound] at h; cases h
      | some above =>
        rw [hfound] at h
        cases h
        have habove : above.isAbsolute = true := by
          have hmem := (mem_ancestors (List.mem_of_find?_eq_some hfound)).1
          simp [Path.isAbsolute, hmem, root_of_resolvePath hbase]
        have hmarker := List.find?_some hfound
        exact ⟨isAbsolute_child (isAbsolute_child habove _) _, hmarker, rfl⟩

/-- The root of a parent is an absolute path to a directory with the marker. -/
lemma Module.parentRoot_eq_some {m : Module} {notes : List Note}
    (h : m.parentRoot d settings = .ok (some p, notes)) :
    p.isAbsolute = true ∧ isModuleRoot d settings.markerFile p = true ∧ notes = [] := by
  unfold Module.parentRoot at h
  cases hv : m.parent d settings with
  | error f => rw [hv] at h; cases h
  | ok v =>
    rw [hv] at h
    simp only [bind, Except.bind] at h
    split at h
    · cases h
    · split at h
      · cases h
      · rename_i name _
        cases hi : installed d settings.markerFile name m.root with
        | error f => rw [hi] at h; cases h
        | ok found =>
          obtain ⟨where?, more⟩ := found
          rw [hi] at h
          cases where? with
          | none => cases h
          | some path =>
            cases h
            exact installed_eq_some hi

/-- Where the parent of the module at a root is installed. -/
def parentAt (d : Disk) (settings : Settings) (root : Path) : Option Path :=
  match (Module.mk root .null .null .null).parentRoot d settings with
  | .ok (found, _) => found
  | .error _ => none

/-- What is known of a module, its root apart, does not matter for where its parent is. -/
lemma Module.parentAt_root (m : Module) :
    parentAt d settings m.root =
      match m.parentRoot d settings with
      | .ok (found, _) => found
      | .error _ => none := by
  unfold parentAt Module.parentRoot
  have hparent : (Module.mk m.root .null .null .null).parent d settings = m.parent d settings := rfl
  rw [hparent]
  cases m.parent d settings with
  | error f => rfl
  | ok v =>
    simp only [bind, Except.bind]
    cases v.isVoid with
    | true => rfl
    | false =>
      simp only [Bool.false_eq_true, if_false]
      cases v.text? with
      | none => rfl
      | some name =>
        dsimp only
        cases installed d settings.markerFile name m.root with
        | error f => rfl
        | ok found =>
          obtain ⟨found?, more⟩ := found
          cases found? <;> rfl

lemma Module.parentAt_eq_some {m : Module} {notes : List Note}
    (h : m.parentRoot d settings = .ok (some p, notes)) : parentAt d settings m.root = some p := by
  rw [m.parentAt_root, h]

/-! ## Real directories -/

/-- The marker is named by a path from the root of a module, not by one of its own. -/
def IsRelativeMarker (marker : String) : Prop := (Path.ofString marker).isAbsolute = false

instance (marker : String) : Decidable (IsRelativeMarker marker) :=
  inferInstanceAs (Decidable (_ = _))

lemma child_eq (hm : IsRelativeMarker marker) (p : Path) :
    p.child marker = ⟨p.root, p.names ++ (Path.ofString marker).names⟩ := by
  simp only [IsRelativeMarker] at hm
  simp [Path.child, Path.join, hm]

lemma isModuleRoot_iff : isModuleRoot d marker p = true ↔
    ∃ place content, d.follow true (p.child marker) = .ok (.node place (.file content)) := by
  unfold isModuleRoot Disk.isFile Disk.nodeAt?
  cases d.follow true (p.child marker) with
  | error cause => simp
  | ok found =>
    cases found with
    | vacant place => simp
    | node place node => cases node <;> simp

lemma isModuleRoot_of_isOpen {place : Place} (h : d.IsOpen place) (hm : IsRelativeMarker marker)
    (hnone : (Path.ofString marker).names = []) : isModuleRoot d marker ⟨"/", place⟩ = false := by
  unfold isModuleRoot Disk.isFile
  rw [child_eq hm, hnone, List.append_nil, h.nodeAt?]

/-- A path with the marker in it is resolved to an open place with the marker in it. A marker
without a name would be a file itself. -/
lemma isModuleRoot_cases (hm : IsRelativeMarker marker) (hp : p.isAbsolute = true)
    (h : isModuleRoot d marker p = true) :
    (∃ place, d.IsOpen place ∧ resolvePath d p = .ok ⟨"/", place⟩ ∧
      isModuleRoot d marker ⟨"/", place⟩ = true) ∨
    (Path.ofString marker).names = [] ∧
      ∃ place, resolvePath d p = .ok ⟨"/", place⟩ ∧ d.IsOpen place.dropLast := by
  obtain ⟨place, content, hfollow⟩ := isModuleRoot_iff.mp h
  rw [child_eq hm] at hfollow
  by_cases hnone : (Path.ofString marker).names = []
  · rw [hnone, List.append_nil] at hfollow
    obtain ⟨hresolve, hend⟩ := Disk.resolve?_of_follow (Disk.isOpen_start hp) hfollow
    refine Or.inr ⟨hnone, place, resolvePath_eq_ok_iff.mpr hresolve, ?_⟩
    cases hend with
    | file hopen => rwa [List.dropLast_concat]
  · obtain ⟨within, hopen, hresolve, hbelow⟩ := Disk.exists_open_of_follow (Disk.isOpen_start hp) hnone hfollow
    refine Or.inl ⟨within, hopen, resolvePath_eq_ok_iff.mpr hresolve, ?_⟩
    rw [isModuleRoot_iff, child_eq hm]
    exact ⟨place, content, hbelow⟩

lemma isDirectory_of_isOpen {place : Place} (h : d.IsOpen place) :
    d.isDirectory ⟨"/", place⟩ = true := by
  simp [Disk.isDirectory, h.nodeAt?]

/-- The root that a path belongs to is the nearest one at or above the end of the path. -/
lemma moduleRoot_eq_ok (h : moduleRoot d marker p = .ok root) :
    ∃ start, resolvePath d p = .ok start ∧ isTooLong start.toString = false ∧
      nearest? (if d.isDirectory start then start else start.parent) (isModuleRoot d marker) =
        some root := by
  unfold moduleRoot at h
  cases hstart : resolvePath d p with
  | error f => rw [hstart] at h; cases h
  | ok start =>
    rw [hstart] at h
    simp only [Except.bind] at h
    split at h
    · cases h
    · rename_i hlong
      split at h
      · rename_i found hfound
        cases h
        exact ⟨start, rfl, by simpa using hlong, hfound⟩
      · cases h

lemma prefix_dropLast_of_ne {α : Type*} {xs ys : List α} (h : xs <+: ys) (hne : xs ≠ ys) :
    xs <+: ys.dropLast := by
  obtain ⟨rest, rfl⟩ := h
  rw [List.dropLast_append_of_ne_nil (by simpa using Ne.symm hne)]
  exact List.prefix_append _ _

/-- **An installed module has its real directory as its root.**

**Proof sketch.** The directory is found with the marker in it, and so is the open place that its
path is resolved to; hence this is the nearest root. A marker without a name is never found in a
directory, neither in the place itself nor above it. -/
theorem moduleRoot_eq_resolvePath (hm : IsRelativeMarker marker) (hp : p.isAbsolute = true)
    (hmarker : isModuleRoot d marker p = true) (h : moduleRoot d marker p = .ok root) :
    resolvePath d p = .ok root ∧ ∃ place, root = ⟨"/", place⟩ ∧ d.IsOpen place := by
  obtain ⟨start, hstart, -, hnearest⟩ := moduleRoot_eq_ok h
  rcases isModuleRoot_cases hm hp hmarker with ⟨place, hopen, hresolve, hat⟩ |
      ⟨hnone, place, hresolve, hopen⟩
  · rw [hresolve] at hstart
    cases hstart
    rw [if_pos (isDirectory_of_isOpen hopen), nearest?, List.find?_cons_of_pos hat] at hnearest
    cases hnearest
    exact ⟨hresolve, place, rfl, hopen⟩
  · rw [hresolve] at hstart
    cases hstart
    have hat := List.find?_some hnearest
    obtain ⟨hroot, hnames⟩ := mem_ancestors (List.mem_of_find?_eq_some hnearest)
    obtain ⟨slash, names⟩ := root
    obtain rfl : slash = "/" := by split at hroot <;> exact hroot
    have habove : ¬ names <+: place.dropLast := fun hn => by
      rw [isModuleRoot_of_isOpen (hopen.of_prefix hn) hm hnone] at hat
      cases hat
    split at hnames
    · -- the place itself is left, which would be a directory and a file
      rename_i hdirectory
      obtain rfl : names = place := by
        by_contra hne
        exact habove (prefix_dropLast_of_ne hnames hne)
      simp only [isModuleRoot, Disk.isFile, child_eq hm, hnone, List.append_nil] at hat
      simp only [Disk.isDirectory, beq_iff_eq] at hdirectory
      rw [hdirectory] at hat
      cases hat
    · exact absurd hnames habove

/-! ## How many roots there are -/

/-- The roots that some path belongs to. -/
def moduleRoots (d : Disk) (marker : String) : Set Path :=
  {root | ∃ p, moduleRoot d marker p = .ok root}

lemma mem_moduleRoots (h : moduleRoot d marker p = .ok root) : root ∈ moduleRoots d marker := ⟨p, h⟩

/-- Names as one word of numbers: a one in front of each name, and greater numbers for its
characters. -/
def wordOf (names : List String) : List Nat :=
  names.flatMap fun name => 1 :: name.toList.map fun c => c.toNat + 2

lemma wordOf_cons (name : String) (names : List String) :
    wordOf (name :: names) = 1 :: (name.toList.map (fun c => c.toNat + 2) ++ wordOf names) := by
  simp [wordOf]

lemma wordOf_eq_nil_or_cons (names : List String) : wordOf names = [] ∨ ∃ w, wordOf names = 1 :: w := by
  cases names with
  | nil => exact Or.inl rfl
  | cons name names => exact Or.inr ⟨_, wordOf_cons name names⟩

lemma characters_ne_wordOf (c : Char) (w : List Nat) (names : List String) :
    (c.toNat + 2) :: w ≠ wordOf names := by
  intro h
  rcases wordOf_eq_nil_or_cons names with he | ⟨w', he⟩
  · simp [he] at h
  · simp [he] at h

/-- A word tells its names. -/
lemma wordOf_injective : Function.Injective wordOf := by
  intro names
  induction names with
  | nil =>
    intro names' h
    cases names' with
    | nil => rfl
    | cons name names' => simp [wordOf] at h
  | cons name names ih =>
    intro names' h
    cases names' with
    | nil => simp [wordOf] at h
    | cons name' names' =>
      rw [wordOf_cons, wordOf_cons, List.cons.injEq] at h
      have hboth : name.toList = name'.toList ∧ names = names' := by
        have hsplit := h.2
        clear h
        generalize name.toList = cs at hsplit ⊢
        generalize name'.toList = cs' at hsplit ⊢
        induction cs generalizing cs' with
        | nil =>
          cases cs' with
          | nil => exact ⟨rfl, ih hsplit⟩
          | cons c' cs' => exact absurd hsplit.symm (characters_ne_wordOf c' _ names)
        | cons c cs ihcs =>
          cases cs' with
          | nil => exact absurd hsplit (characters_ne_wordOf c _ names')
          | cons c' cs' =>
            simp only [List.map_cons, List.cons_append, List.cons.injEq, Nat.add_right_cancel_iff]
              at hsplit
            obtain ⟨rfl, rfl⟩ := ihcs cs' hsplit.2
            exact ⟨by rw [Char.toNat_inj.mp hsplit.1], rfl⟩
      rw [String.toList_inj.mp hboth.1, hboth.2]

lemma length_le_length_encode (s : String) : s.toList.length ≤ (Text.encode s).length := by
  unfold Text.encode
  induction s.toList with
  | nil => simp
  | cons c cs ih =>
    have hc := c.utf8Size_pos
    rw [List.flatMap_cons, List.length_append, String.length_utf8EncodeChar, List.length_cons]
    omega

lemma encode_append (s s' : String) : Text.encode (s ++ s') = Text.encode s ++ Text.encode s' := by
  simp [Text.encode]

/-- A word is no longer than the text of a path with its names. -/
lemma length_wordOf_le (names : List String) :
    (wordOf names).length ≤ (Text.encode (Path.mk "/" names).toString).length := by
  have hslash : (Text.encode "/").length = 1 := by decide
  have hjoin : (wordOf names).length ≤ 1 + (Text.encode (Text.join "/" names)).length := by
    induction names with
    | nil => simp [wordOf]
    | cons name names ih =>
      have hname := length_le_length_encode name
      cases names with
      | nil => simpa [wordOf, Text.join, Nat.add_comm] using hname
      | cons next names =>
        have hjoin : Text.join "/" (name :: next :: names) =
            name ++ "/" ++ Text.join "/" (next :: names) := rfl
        rw [wordOf_cons, hjoin, encode_append, encode_append]
        simp only [List.length_cons, List.length_append, List.length_map, hslash]
        omega
  have htext : (Path.mk "/" names).toString = "/" ++ Text.join "/" names := by
    simp [Path.toString]
  rwa [htext, encode_append, List.length_append, hslash]

/-- The number of a word, in which all digits of a name stand. -/
def codeOf (p : Path) : Nat := Nat.ofDigits (2 ^ 21) (wordOf p.names)

lemma lt_of_mem_wordOf {names : List String} {n : Nat} (h : n ∈ wordOf names) :
    n ≠ 0 ∧ n < 2 ^ 21 := by
  simp only [wordOf, List.mem_flatMap, List.mem_cons, List.mem_map] at h
  obtain ⟨name, -, rfl | ⟨c, -, rfl⟩⟩ := h
  · decide
  · have hc : c.toNat < 0xd800 ∨ 0xdfff < c.toNat ∧ c.toNat < 0x110000 := c.valid
    omega

/-- Names of which a path to a root is made are told by their number. -/
lemma names_eq_of_codeOf_eq (h : codeOf p = codeOf q) : p.names = q.names := by
  have hdigits : ∀ names, Nat.digits (2 ^ 21) (Nat.ofDigits (2 ^ 21) (wordOf names)) = wordOf names :=
    fun names => Nat.digits_ofDigits (2 ^ 21) (by decide) _ (fun n hn => (lt_of_mem_wordOf hn).2)
      fun hne => (lt_of_mem_wordOf (List.getLast_mem hne)).1
  have hword := congrArg (Nat.digits (2 ^ 21)) h
  rw [codeOf, codeOf, hdigits, hdigits] at hword
  exact wordOf_injective hword

/-- The number of a root is bounded by the length of the paths that a system looks at. -/
lemma codeOf_lt (h : root ∈ moduleRoots d marker) : root.root = "/" ∧ codeOf root < mostRoots := by
  obtain ⟨p, hp⟩ := h
  obtain ⟨start, hstart, hlong, hnearest⟩ := moduleRoot_eq_ok hp
  have hslash := root_of_resolvePath hstart
  obtain ⟨names, hnames⟩ : ∃ names, start = ⟨"/", names⟩ := ⟨start.names, by rw [← hslash]⟩
  subst hnames
  obtain ⟨hroot, hfront⟩ : root.root = "/" ∧ root.names <+: names := by
    split at hnearest
    · exact mem_ancestors (List.mem_of_find?_eq_some hnearest)
    · obtain ⟨hroot, hfront⟩ := mem_ancestors (List.mem_of_find?_eq_some hnearest)
      exact ⟨hroot, hfront.trans (List.dropLast_prefix names)⟩
  have hword : (wordOf root.names).length ≤ longestPath := by
    obtain ⟨rest, hrest⟩ := hfront
    have hnames := length_wordOf_le names
    have hshort : (Text.encode (Path.mk "/" names).toString).length ≤ longestPath := by
      simpa [isTooLong] using hlong
    have happend : wordOf names = wordOf root.names ++ wordOf rest := by
      rw [← hrest, wordOf, List.flatMap_append]
      rfl
    rw [happend, List.length_append] at hnames
    omega
  have hpow : ∀ n, Nat.pow 2 (21 * n) = (2 ^ 21) ^ n := fun n => Nat.pow_mul 2 21 n
  refine ⟨hroot, ?_⟩
  unfold mostRoots
  calc codeOf root
      < (2 ^ 21) ^ (wordOf root.names).length :=
        Nat.ofDigits_lt_base_pow_length (by decide) fun n hn => (lt_of_mem_wordOf hn).2
    _ ≤ (2 ^ 21) ^ longestPath := Nat.pow_le_pow_right (by decide) hword
    _ = Nat.pow 2 (21 * longestPath) := (hpow longestPath).symm

lemma injOn_codeOf (d : Disk) (marker : String) : Set.InjOn codeOf (moduleRoots d marker) := by
  intro p hp q hq h
  have hnames := names_eq_of_codeOf_eq h
  have hslash := (codeOf_lt hp).1.trans (codeOf_lt hq).1.symm
  cases p
  cases q
  simp only at hnames hslash
  rw [hnames, hslash]

/-- Paths that are told by numbers below a bound are no more than the bound. -/
lemma finite_of_codeOf_lt {s : Set Path} {bound : Nat} (hlt : ∀ p ∈ s, codeOf p < bound)
    (hinj : Set.InjOn codeOf s) : s.Finite ∧ s.ncard ≤ bound := by
  have hmaps : Set.MapsTo codeOf s (Finset.range bound) := fun p hp => by simpa using hlt p hp
  have hcard := Set.ncard_le_ncard_of_injOn codeOf hmaps hinj (Finset.finite_toSet _)
  rw [Set.ncard_coe_finset, Finset.card_range] at hcard
  exact ⟨Set.Finite.of_injOn hmaps hinj (Finset.finite_toSet _), hcard⟩

/-- **There are finitely many roots of modules**, whatever the disk and the marker. -/
theorem finite_moduleRoots (d : Disk) (marker : String) : (moduleRoots d marker).Finite :=
  (finite_of_codeOf_lt (fun _ h => (codeOf_lt h).2) (injOn_codeOf d marker)).1

/-- There are no more roots of modules than rounds in which parents may be looked up. -/
theorem ncard_moduleRoots_le (d : Disk) (marker : String) :
    (moduleRoots d marker).ncard ≤ mostRoots :=
  (finite_of_codeOf_lt (fun _ h => (codeOf_lt h).2) (injOn_codeOf d marker)).2

/-! ## How many real directories there are -/

/-- The open places of a disk, as paths. -/
def openPaths (d : Disk) : Set Path := {p | ∃ place, p = ⟨"/", place⟩ ∧ d.IsOpen place}

lemma openPaths_subset (d : Disk) :
    openPaths d ⊆ (([] :: d.entries.map (·.1)).map (Path.mk "/")).toFinset := by
  rintro p ⟨place, rfl, hopen⟩
  simpa using hopen.eq_nil_or_mem

lemma finite_openPaths (d : Disk) : (openPaths d).Finite :=
  (Finset.finite_toSet _).subset (openPaths_subset d)

/-- A disk has no more real directories than entries, and the root. -/
lemma ncard_openPaths_le (d : Disk) : (openPaths d).ncard ≤ d.entries.length + 1 := by
  have hle := Set.ncard_le_ncard (openPaths_subset d) (Finset.finite_toSet _)
  rw [Set.ncard_coe_finset] at hle
  refine hle.trans ((List.toFinset_card_le _).trans ?_)
  simp

end ThemeOverride
