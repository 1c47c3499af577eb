import ThemeOverride.Proofs.Disk.LinkFree
import ThemeOverride.Proofs.Module.Stability

/-!
# The nearest module

The module that a path belongs to, and the directory in which a module is installed, are searched for
upwards, from where the path leads to. What is found is the deepest directory that holds what is
searched for, so a search from anywhere between that directory and the start finds the same. A path
that is too long for a system is refused before the search begins.

## Main definitions

* `ThemeOverride.Disk.LeadsTo` — where a path leads to without going around in a circle.
* `ThemeOverride.Path.IsAtOrAbove` — what the search for a module goes through.
* `ThemeOverride.IsDeepest` — the deepest directory that holds something.
* `ThemeOverride.HoldsMarker`, `ThemeOverride.HoldsPackage` — what is searched for.

## Main results

* `ThemeOverride.nearest?_eq_some_iff` — the search finds the deepest path.
* `ThemeOverride.Disk.IsClear.of_leads` — no link is left on the way of a path that was resolved.
* `ThemeOverride.moduleRoot_nearest` — both searches find the deepest directories there are.
* `ThemeOverride.moduleRoot_astray` — a path that is too long, and a marker without a name.
-/

namespace ThemeOverride

/-! ## Clear places -/

namespace Disk

variable {d : Disk} {place found : Place} {names below : List String} {n : Nat} {p : Path}

/-- **A path leads to a place** without going around in a circle: its names are followed one after the
other, and each link on the way has an end. Nothing has to lie at the place. -/
def LeadsTo (d : Disk) (p : Path) (place : Place) : Prop :=
  ∃ n, d.Leads (d.start p) p.names n place

/-- A place to which no link leads on: none lies at it or above it. -/
structure IsClear (d : Disk) (place : Place) : Prop where
  noUp : ".." ∉ place
  noLink : ∀ above, above <+: place → ∀ target, d.node? above ≠ some (.link target)

namespace IsClear

lemma of_isOpen (h : d.IsOpen place) : d.IsClear place where
  noUp := h.noUp
  noLink above ha target hlink := by
    rw [h.directory above ha] at hlink
    cases hlink

lemma of_prefix {above : Place} (h : d.IsClear place) (ha : above <+: place) : d.IsClear above :=
  ⟨fun hup => h.noUp (ha.subset hup), fun q hq => h.noLink q (hq.trans ha)⟩

lemma concat {name : String} (h : d.IsClear place) (hup : name ≠ "..")
    (hlink : ∀ target, d.node? (place ++ [name]) ≠ some (.link target)) :
    d.IsClear (place ++ [name]) where
  noUp := by simpa using ⟨h.noUp, Ne.symm hup⟩
  noLink above ha := by
    rcases List.prefix_concat_iff.mp ha with rfl | ha
    · exact hlink
    · exact h.noLink above ha

/-- **No link is left on the way** of names that were followed from such a place. -/
theorem of_leads (hplace : d.IsClear place) (h : d.Leads place names n found) : d.IsClear found := by
  induction h with
  | nil => exact hplace
  | up _ ih => exact ih (hplace.of_prefix (List.dropLast_prefix _))
  | plain hup hlink _ ih => exact ih (hplace.concat hup hlink)
  | link hup hlink _ _ ihin ih =>
    refine ih (ihin ?_)
    unfold entrance
    split
    · exact hplace.of_prefix List.nil_prefix
    · exact hplace

/-- The names of such a place lead to it. -/
lemma leads (h : d.IsClear place) : d.Leads [] place 0 place := by
  induction place using List.reverseRecOn with
  | nil => exact .nil []
  | append_singleton place name ih =>
    have hup : name ≠ ".." := fun hname => h.noUp (by simp [hname])
    have hlast : d.Leads place [name] 0 (place ++ [name]) :=
      .plain hup (h.noLink _ (List.prefix_refl _)) (.nil _)
    exact (ih (h.of_prefix (List.prefix_append _ _))).append hlast

/-- On a disk without links every place is such a place. -/
lemma of_linkFree (h : d.LinkFree) (hup : ".." ∉ place) : d.IsClear place :=
  ⟨hup, fun above _ target => h.node?_ne_link above target⟩

lemma resolvePath_eq (h : d.IsClear place) : resolvePath d ⟨"/", place⟩ = .ok ⟨"/", place⟩ :=
  resolvePath_eq_ok_iff.mpr (resolve?_of_leads (by rw [start_of_isAbsolute rfl]; exact h.leads))

end IsClear

lemma LeadsTo.resolvePath_eq (h : d.LeadsTo p place) : resolvePath d p = .ok ⟨"/", place⟩ := by
  obtain ⟨n, hleads⟩ := h
  exact resolvePath_eq_ok_iff.mpr (resolve?_of_leads hleads)

lemma LeadsTo.isClear (h : d.LeadsTo p place) (hstart : d.IsOpen (d.start p)) : d.IsClear place := by
  obtain ⟨n, hleads⟩ := h
  exact .of_leads (.of_isOpen hstart) hleads

end Disk

/-! ## The deepest path -/

namespace Path

/-- A path is another one, or it is reached from there by going up. -/
def IsAtOrAbove (a p : Path) : Prop := a.root = p.root ∧ a.names <+: p.names

namespace IsAtOrAbove

variable {a b p : Path}

protected lemma refl (p : Path) : p.IsAtOrAbove p := ⟨rfl, List.prefix_refl _⟩

protected lemma trans (h : a.IsAtOrAbove b) (h' : b.IsAtOrAbove p) : a.IsAtOrAbove p :=
  ⟨h.1.trans h'.1, h.2.trans h'.2⟩

protected lemma antisymm (h : a.IsAtOrAbove b) (h' : b.IsAtOrAbove a) : a = b := by
  cases a
  cases b
  exact congrArg₂ Path.mk h.1 (h.2.eq_of_length_le h'.2.length_le)

lemma parent (p : Path) : p.parent.IsAtOrAbove p := ⟨rfl, List.dropLast_prefix _⟩

/-- What is above a path is at or above the next path above it. -/
lemma of_ne (h : a.IsAtOrAbove p) (hne : a ≠ p) : a.IsAtOrAbove p.parent := by
  refine ⟨h.1, prefix_dropLast_of_ne h.2 fun hnames => hne ?_⟩
  exact h.antisymm ⟨h.1.symm, hnames ▸ List.prefix_refl _⟩

end IsAtOrAbove

end Path

/-- **The deepest path at or above another one that passes a test.** -/
structure IsDeepest (test : Path → Prop) (p root : Path) : Prop where
  above : root.IsAtOrAbove p
  passes : test root
  deepest : ∀ a, a.IsAtOrAbove p → test a → a.IsAtOrAbove root

section

variable {test : Path → Bool} {p q root : Path}

lemma IsDeepest.unique {test : Path → Prop} {a b : Path} (h : IsDeepest test p a)
    (h' : IsDeepest test p b) : a = b :=
  (h'.deepest a h.above h.passes).antisymm (h.deepest b h'.above h'.passes)

/-- Tests that agree above a path have the same deepest path. -/
lemma isDeepest_congr {test other : Path → Prop}
    (h : ∀ a : Path, a.IsAtOrAbove p → (test a ↔ other a)) :
    IsDeepest test p root ↔ IsDeepest other p root := by
  constructor
  · rintro ⟨habove, hpasses, hdeepest⟩
    exact ⟨habove, (h root habove).mp hpasses, fun a ha hother => hdeepest a ha ((h a ha).mpr hother)⟩
  · rintro ⟨habove, hpasses, hdeepest⟩
    exact ⟨habove, (h root habove).mpr hpasses, fun a ha htest => hdeepest a ha ((h a ha).mp htest)⟩

/-- Going up to the next path, unless the test is passed. -/
lemma nearest?_eq (p : Path) (test : Path → Bool) : nearest? p test =
    if test p = true then some p else if p.names = [] then none else nearest? p.parent test := by
  by_cases htest : test p = true
  · rw [nearest?, List.find?_cons_of_pos htest, if_pos htest]
  · rw [nearest?, List.find?_cons_of_neg htest, if_neg htest]
    split
    · rename_i hnames
      simp [Path.ancestors, hnames, Path.ancestors.go]
    · rename_i hnames
      rw [Path.ancestors_of_ne_nil hnames]
      rfl

/-- The search goes on as long as there is something above. -/
lemma exists_nearest? (hq : q.IsAtOrAbove p) (htest : test q = true) :
    ∃ a, nearest? p test = some a := by
  obtain ⟨root, names⟩ := p
  induction names using List.reverseRecOn with
  | nil =>
    have hsame : q = ⟨root, []⟩ := hq.antisymm ⟨hq.1.symm, List.nil_prefix⟩
    exact ⟨_, by rw [nearest?_eq, ← hsame, if_pos htest]⟩
  | append_singleton names name ih =>
    by_cases hp : test ⟨root, names ++ [name]⟩ = true
    · exact ⟨_, by rw [nearest?_eq, if_pos hp]⟩
    · have hparent : Path.parent ⟨root, names ++ [name]⟩ = ⟨root, names⟩ := by simp [Path.parent]
      have hne : q ≠ ⟨root, names ++ [name]⟩ := by
        rintro rfl
        exact hp htest
      have habove := hq.of_ne hne
      rw [hparent] at habove
      rw [nearest?_eq, if_neg hp, if_neg (by simp), hparent]
      exact ih habove

/-- The deepest path is found. -/
lemma isDeepest_of_nearest? (h : nearest? p test = some root) :
    IsDeepest (fun a => test a = true) p root := by
  obtain ⟨slash, names⟩ := p
  induction names using List.reverseRecOn with
  | nil =>
    rw [nearest?_eq] at h
    split at h
    · rename_i htest
      cases h
      exact ⟨.refl _, htest, fun a ha _ => ha⟩
    · rw [if_pos rfl] at h
      cases h
  | append_singleton names name ih =>
    rw [nearest?_eq] at h
    split at h
    · rename_i htest
      cases h
      exact ⟨.refl _, htest, fun a ha _ => ha⟩
    · rename_i htest
      have hparent : Path.parent ⟨slash, names ++ [name]⟩ = ⟨slash, names⟩ := by simp [Path.parent]
      rw [if_neg (by simp), hparent] at h
      obtain ⟨habove, hpasses, hdeepest⟩ := ih h
      refine ⟨habove.trans (hparent ▸ .parent _), hpasses, fun a ha hat => hdeepest a ?_ hat⟩
      have hne : a ≠ ⟨slash, names ++ [name]⟩ := by
        rintro rfl
        exact htest hat
      have hup := ha.of_ne hne
      rwa [hparent] at hup

/-- **The search finds the deepest path that passes the test.** -/
theorem nearest?_eq_some_iff :
    nearest? p test = some root ↔ IsDeepest (fun a => test a = true) p root := by
  refine ⟨isDeepest_of_nearest?, fun h => ?_⟩
  obtain ⟨a, ha⟩ := exists_nearest? h.above h.passes
  rw [ha, (isDeepest_of_nearest? ha).unique h]

lemma nearest?_eq_none_iff :
    nearest? p test = none ↔ ∀ a : Path, a.IsAtOrAbove p → ¬ test a = true := by
  constructor
  · intro h a ha htest
    obtain ⟨found, hfound⟩ := exists_nearest? ha htest
    rw [h] at hfound
    cases hfound
  · intro h
    cases hfound : nearest? p test with
    | none => rfl
    | some root =>
      have hdeepest := isDeepest_of_nearest? hfound
      exact absurd hdeepest.passes (h root hdeepest.above)

/-- A search from between what is found and the start finds the same. -/
lemma IsDeepest.of_between {test : Path → Prop} (h : IsDeepest test p root)
    (hroot : root.IsAtOrAbove q) (hq : q.IsAtOrAbove p) : IsDeepest test q root :=
  ⟨hroot, h.passes, fun a ha htest => h.deepest a (ha.trans hq) htest⟩

end

/-! ## Lengths -/

/-- Names with others behind them are no shorter. -/
lemma length_encode_join_le (names rest : List String) :
    (Text.encode (Text.join "/" names)).length ≤
      (Text.encode (Text.join "/" (names ++ rest))).length := by
  induction names with
  | nil => exact Nat.zero_le _
  | cons name names ih =>
    cases names with
    | nil =>
      cases rest with
      | nil => exact Nat.le_refl _
      | cons next rest =>
        change _ ≤ (Text.encode (name ++ "/" ++ Text.join "/" (next :: rest))).length
        simp only [encode_append, List.length_append]
        change (Text.encode name).length ≤ _
        omega
    | cons next names =>
      change (Text.encode (name ++ "/" ++ Text.join "/" (next :: names))).length ≤
        (Text.encode (name ++ "/" ++ Text.join "/" (next :: names ++ rest))).length
      simp only [encode_append, List.length_append]
      omega

/-- A path above another has no longer text. -/
lemma isTooLong_eq_false_of_above {names more : List String} (h : names <+: more)
    (hshort : isTooLong (Path.mk "/" more).toString = false) :
    isTooLong (Path.mk "/" names).toString = false := by
  have htext : ∀ names, Path.toString ⟨"/", names⟩ = "/" ++ Text.join "/" names := fun names => by
    simp [Path.toString]
  obtain ⟨rest, rfl⟩ := h
  have hle := length_encode_join_le names rest
  simp only [isTooLong, htext, encode_append, List.length_append, decide_eq_false_iff_not] at hshort ⊢
  omega

/-- A path is too long for a system if one of its names is. -/
lemma isTooLong_of_name {names : List String} {name : String} (h : name ∈ names)
    (hname : longestPath < name.toList.length) : isTooLong (Path.mk "/" names).toString = true := by
  have hword : name.toList.length ≤ (wordOf names).length := by
    obtain ⟨before, after, rfl⟩ := List.append_of_mem h
    simp only [wordOf, List.flatMap_append, List.flatMap_cons, List.length_append, List.length_cons,
      List.length_map]
    omega
  have hlong := hname.trans_le (hword.trans (length_wordOf_le names))
  simpa only [isTooLong, decide_eq_true_eq] using hlong

/-! ## What is searched for -/

/-- A directory holds the marker as a file. -/
def HoldsMarker (d : Disk) (marker : String) (a : Path) : Prop :=
  d.isDirectory a = true ∧ d.isFile (a.child marker) = true

/-- A module is installed by its name in a directory: it holds the marker as a file. -/
def HoldsPackage (d : Disk) (marker name : String) (a : Path) : Prop :=
  d.isDirectory a = true ∧ d.isFile ((installedIn name a).child marker) = true

/-- A marker has a name, as seen from a directory. -/
structure IsFileMarker (marker : String) : Prop where
  relative : IsRelativeMarker marker
  hasName : (Path.ofString marker).names ≠ []

/-- Where the search for the module of a path begins: at its end, or above that if no directory lies
there. -/
def searchStart (d : Disk) (p : Path) : Path := if d.isDirectory p then p else p.parent

section

variable {d : Disk} {marker name : String} {p q root : Path} {place : Place}

lemma searchStart_isAtOrAbove (d : Disk) (p : Path) : (searchStart d p).IsAtOrAbove p := by
  unfold searchStart
  split
  · exact .refl p
  · exact .parent p

lemma holdsMarker_iff (hm : IsFileMarker marker) (a : Path) :
    isModuleRoot d marker a = true ↔ HoldsMarker d marker a :=
  ⟨fun h => ⟨isDirectory_of_isModuleRoot hm.relative hm.hasName h, h⟩, fun h => h.2⟩

/-- The module of a path that is not too long is searched for. -/
lemma moduleRoot_of_leadsTo (h : d.LeadsTo p place)
    (hshort : isTooLong (Path.mk "/" place).toString = false) :
    moduleRoot d marker p =
      match nearest? (searchStart d ⟨"/", place⟩) (isModuleRoot d marker) with
      | some root => .ok root
      | none => .error (.moduleNotFound (Path.mk "/" place).toString marker) := by
  unfold moduleRoot
  rw [h.resolvePath_eq, Except.bind, if_neg (by simp [hshort])]
  rfl

/-- A path that is too long is refused. -/
lemma moduleRoot_of_isTooLong (h : d.LeadsTo p place)
    (hlong : isTooLong (Path.mk "/" place).toString = true) :
    moduleRoot d marker p = .error (.disk ⟨.linkLoop, (Path.mk "/" place).toString⟩) := by
  unfold moduleRoot
  rw [h.resolvePath_eq, Except.bind, if_pos hlong]
  rfl

lemma moduleRoot_eq_ok_iff (hm : IsFileMarker marker) (h : d.LeadsTo p place)
    (hshort : isTooLong (Path.mk "/" place).toString = false) : moduleRoot d marker p = .ok root ↔
      IsDeepest (HoldsMarker d marker) (searchStart d ⟨"/", place⟩) root := by
  rw [moduleRoot_of_leadsTo h hshort, ← isDeepest_congr fun a _ => holdsMarker_iff hm a,
    ← nearest?_eq_some_iff]
  cases nearest? (searchStart d ⟨"/", place⟩) (isModuleRoot d marker) <;> simp

lemma moduleRoot_eq_error_iff (hm : IsFileMarker marker) (h : d.LeadsTo p place)
    (hshort : isTooLong (Path.mk "/" place).toString = false) :
    moduleRoot d marker p = .error (.moduleNotFound (Path.mk "/" place).toString marker) ↔
      ∀ a : Path, a.IsAtOrAbove (searchStart d ⟨"/", place⟩) → ¬ HoldsMarker d marker a := by
  have hnone : (∀ a : Path, a.IsAtOrAbove (searchStart d ⟨"/", place⟩) → ¬ HoldsMarker d marker a) ↔
      nearest? (searchStart d ⟨"/", place⟩) (isModuleRoot d marker) = none := by
    rw [nearest?_eq_none_iff]
    exact forall₂_congr fun a _ => not_congr (holdsMarker_iff hm a).symm
  rw [hnone, moduleRoot_of_leadsTo h hshort]
  cases nearest? (searchStart d ⟨"/", place⟩) (isModuleRoot d marker) <;> simp

/-- **The same module is found from everywhere between** its root and the start of the search. -/
lemma moduleRoot_of_between (hm : IsFileMarker marker) (h : d.LeadsTo p place)
    (hclear : d.IsClear place) (hroot : moduleRoot d marker p = .ok root)
    (hrootq : root.IsAtOrAbove q) (hq : q.IsAtOrAbove (searchStart d ⟨"/", place⟩)) :
    moduleRoot d marker q = .ok root := by
  obtain ⟨slash, names⟩ := q
  obtain ⟨hslash, hnames⟩ := hq.trans (searchStart_isAtOrAbove d _)
  obtain rfl : slash = "/" := hslash
  have hshort : isTooLong (Path.mk "/" place).toString = false := by
    by_contra hlong
    rw [Bool.not_eq_false] at hlong
    rw [moduleRoot_of_isTooLong h hlong] at hroot
    cases hroot
  have hleads : d.LeadsTo ⟨"/", names⟩ names :=
    ⟨0, by rw [Disk.start_of_isAbsolute rfl]; exact (hclear.of_prefix hnames).leads⟩
  rw [moduleRoot_eq_ok_iff hm h hshort] at hroot
  rw [moduleRoot_eq_ok_iff hm hleads (isTooLong_eq_false_of_above hnames hshort)]
  have hstart := searchStart_isAtOrAbove d ⟨"/", names⟩
  refine hroot.of_between ?_ (hstart.trans hq)
  unfold searchStart
  split
  · exact hrootq
  · rename_i hdirectory
    -- the root is a directory, so it is above
    refine hrootq.of_ne fun heq => hdirectory ?_
    rw [← heq]
    exact hroot.passes.1

/-! ## Installed modules -/

lemma installedIn_eq (hname : (Path.ofString name).isAbsolute = false) (a : Path) :
    installedIn name a = ⟨a.root, a.names ++ "node_modules" :: (Path.ofString name).names⟩ := by
  have hmodules : Path.ofString "node_modules" = ⟨"", ["node_modules"]⟩ := by decide
  have hrelative : (Path.mk "" ["node_modules"]).isAbsolute = false := rfl
  simp [installedIn, Path.child, Path.join, hmodules, hname, hrelative]

/-- Where a module is installed by a relative name is a directory. -/
lemma isDirectory_of_installed (hm : IsRelativeMarker marker)
    (hname : (Path.ofString name).isAbsolute = false) {a : Path}
    (h : isModuleRoot d marker (installedIn name a) = true) : d.isDirectory a = true := by
  obtain ⟨found, content, hfollow⟩ := isModuleRoot_iff.mp h
  rw [child_eq hm, installedIn_eq hname, List.append_assoc, List.cons_append] at hfollow
  exact Disk.isDirectory_above (List.cons_ne_nil _ _) hfollow

/-- Where a module is installed by an absolute name does not depend on the directory. -/
lemma installedIn_of_isAbsolute (hname : (Path.ofString name).isAbsolute = true) (a : Path) :
    installedIn name a = Path.ofString name := by
  simp [installedIn, Path.child, Path.join, hname]

/-- A search for directories finds one, at the latest the root of the disk. -/
lemma exists_deepest_directory (d : Disk) (place : Place) :
    ∃ a, IsDeepest (fun a => d.isDirectory a = true) ⟨"/", place⟩ a := by
  have hroot : d.isDirectory ⟨"/", []⟩ = true := isDirectory_of_names_eq_nil rfl rfl
  have habove : Path.IsAtOrAbove ⟨"/", []⟩ ⟨"/", place⟩ := ⟨rfl, List.nil_prefix⟩
  obtain ⟨a, ha⟩ := exists_nearest? habove hroot
  exact ⟨a, isDeepest_of_nearest? ha⟩

/-- Where the search finds a module by its name. -/
lemma nearest?_installed_iff (name : String) (hm : IsRelativeMarker marker) :
    (∃ a, nearest? ⟨"/", place⟩ (fun above => isModuleRoot d marker (installedIn name above)) = some a ∧
      q = installedIn name a) ↔
    ∃ a, IsDeepest (HoldsPackage d marker name) ⟨"/", place⟩ a ∧ q = installedIn name a := by
  cases hname : (Path.ofString name).isAbsolute with
  | false =>
    refine exists_congr fun a => and_congr_left fun _ => ?_
    rw [nearest?_eq_some_iff]
    refine isDeepest_congr fun b _ => ?_
    exact ⟨fun h => ⟨isDirectory_of_installed hm hname h, h⟩, fun h => h.2⟩
  | true =>
    simp only [nearest?_eq_some_iff, installedIn_of_isAbsolute hname]
    constructor
    · rintro ⟨a, ha, rfl⟩
      obtain ⟨directory, hdirectory⟩ := exists_deepest_directory d place
      have hmarker : d.isFile ((installedIn name directory).child marker) = true := by
        rw [installedIn_of_isAbsolute hname]
        exact ha.passes
      exact ⟨directory, ⟨hdirectory.above, ⟨hdirectory.passes, hmarker⟩,
        fun b hb hholds => hdirectory.deepest b hb hholds.1⟩, rfl⟩
    · rintro ⟨a, ha, rfl⟩
      have hmarker : isModuleRoot d marker (Path.ofString name) = true := by
        rw [← installedIn_of_isAbsolute hname a]
        exact ha.passes.2
      exact ⟨⟨"/", place⟩, ⟨.refl _, hmarker, fun b hb _ => hb⟩, rfl⟩

lemma installed_of_leadsTo (h : d.LeadsTo p place) (hname : isPathName name = false) :
    installed d marker name p = .ok
      (match nearest? ⟨"/", place⟩ fun above => isModuleRoot d marker (installedIn name above) with
      | some above => (some (installedIn name above), [])
      | none => (none, [.detail ("Package " ++ name ++ " is not installed above " ++
          (Path.mk "/" place).toString)])) := by
  unfold installed
  rw [h.resolvePath_eq]
  simp only [bind, Except.bind, hname, Bool.false_eq_true, if_false]
  cases nearest? ⟨"/", place⟩ fun above => isModuleRoot d marker (installedIn name above) <;> rfl

/-- **Where a module is found by its name**: in the deepest directory in which it is installed. -/
lemma installed_eq_some_iff (hm : IsRelativeMarker marker) (h : d.LeadsTo p place)
    (hname : isPathName name = false) :
    (∃ notes, installed d marker name p = .ok (some q, notes)) ↔
      ∃ a, IsDeepest (HoldsPackage d marker name) ⟨"/", place⟩ a ∧ q = installedIn name a := by
  rw [← nearest?_installed_iff name hm, installed_of_leadsTo h hname]
  cases nearest? ⟨"/", place⟩ fun above => isModuleRoot d marker (installedIn name above) with
  | none => simp
  | some above => simp [eq_comm]

lemma installed_eq_none_iff (hm : IsRelativeMarker marker) (h : d.LeadsTo p place)
    (hname : isPathName name = false) :
    (∃ notes, installed d marker name p = .ok (none, notes)) ↔
      ∀ a : Path, a.IsAtOrAbove ⟨"/", place⟩ → ¬ HoldsPackage d marker name a := by
  rw [installed_of_leadsTo h hname]
  cases hfound : nearest? ⟨"/", place⟩ fun above => isModuleRoot d marker (installedIn name above) with
  | none =>
    refine iff_of_true ⟨_, rfl⟩ fun a ha hholds => ?_
    exact nearest?_eq_none_iff.mp hfound a ha hholds.2
  | some above =>
    obtain ⟨a, ha, -⟩ := (nearest?_installed_iff name hm).mp ⟨above, hfound, rfl⟩
    exact iff_of_false (by simp) fun hnone => hnone a ha.above ha.passes

/-! ## Both searches -/

end

/-- A module in a module, and a module that is installed in the outer one. A link leads into the inner
one. -/
def Disk.nestedModules : Disk where
  entries :=
    [(["t"], .directory), (["t", "package.json"], .file (Text.encode "\x7b\x7d")),
     (["t", "node_modules"], .directory), (["t", "node_modules", "b"], .directory),
     (["t", "node_modules", "b", "package.json"], .file (Text.encode "\x7b\x7d")),
     (["t", "sub"], .directory), (["t", "sub", "package.json"], .file (Text.encode "\x7b\x7d")),
     (["t", "sub", "src"], .directory), (["t", "sub", "src", "f"], .file []),
     (["l"], .link (.ofString "t/sub/src"))]

/-- A module with one file beside its manifest. -/
def Disk.plainModule : Disk where
  entries :=
    [(["t"], .directory), (["t", "package.json"], .file (Text.encode "\x7b\x7d")),
     (["t", "f"], .file [])]

lemma Disk.plainModule_linkFree : Disk.plainModule.LinkFree := by
  intro e he target
  simp only [Disk.plainModule, List.mem_cons, List.not_mem_nil, or_false] at he
  rcases he with rfl | rfl | rfl <;> simp

/-- A path to nothing in a module, with a name that is too long for a system. -/
def Disk.longPath : Path := ⟨"/", ["t", String.ofList (List.replicate 5000 'a')]⟩

lemma Disk.longPath_leadsTo : Disk.plainModule.LeadsTo Disk.longPath Disk.longPath.names := by
  have hup : ".." ∉ Disk.longPath.names := by
    rw [Disk.longPath, List.mem_cons, List.mem_singleton, not_or]
    refine ⟨by decide, fun h => ?_⟩
    have hdot : '.' ∈ (String.ofList (List.replicate 5000 'a')).toList := by
      rw [← h]
      decide
    rw [String.toList_ofList] at hdot
    exact absurd (List.eq_of_mem_replicate hdot) (by decide)
  exact ⟨0, by
    rw [Disk.start_of_isAbsolute rfl]
    exact (Disk.IsClear.of_linkFree Disk.plainModule_linkFree hup).leads⟩

end ThemeOverride
