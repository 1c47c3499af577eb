import ThemeOverride.Module.Location
import ThemeOverride.Proofs.Text.PathText

/-!
# Proper disks

The names on a disk come from path texts, and so do those of the links on it. On such a disk the
path without links of a proper path is proper, and with it the root of a module and the directory
that an override goes to.

## Main definitions

* `ThemeOverride.Disk.Proper` — disks whose links and current directory have names that texts
  spell.

## Main results

* `ThemeOverride.Disk.Proper.resolve` — a resolved path is proper.
* `ThemeOverride.Disk.Proper.targetDirectory` — the directory of an override is proper.
-/

namespace ThemeOverride

namespace Disk

open Path (IsName)

/-- A disk whose current directory and links have names that path texts spell. -/
structure Proper (d : Disk) : Prop where
  here : ∀ n ∈ d.here, IsName n
  links : ∀ place target, d.node? place = some (.link target) → target.Proper

/-- The names that a way leads through, or is stuck with. -/
def Way.names : Way → List String
  | .clear place => place
  | .stuck names => names

section Way

variable {d : Disk} {enter : List Place → Place → List String → Way} {names : List String}

lemma wayOfNames_isName (hd : d.Proper)
    (he : ∀ entered place names, (∀ n ∈ place, IsName n) → (∀ n ∈ names, IsName n) →
      ∀ n ∈ (enter entered place names).names, IsName n)
    (entered : List Place) :
    ∀ (names : List String) (place : Place), (∀ n ∈ place, IsName n) → (∀ n ∈ names, IsName n) →
      ∀ n ∈ (d.wayOfNames enter entered place names).names, IsName n := by
  intro names
  induction names with
  | nil => intro place hp _; exact hp
  | cons name rest ih =>
    intro place hp hn
    have hname : IsName name := hn name List.mem_cons_self
    have hrest : ∀ n ∈ rest, IsName n := fun n h => hn n (List.mem_cons_of_mem _ h)
    have hnext : ∀ n ∈ place ++ [name], IsName n := by
      intro n h
      rcases List.mem_append.mp h with h | h
      · exact hp n h
      · rw [List.mem_singleton.mp h]
        exact hname
    have happ : ∀ xs : List String, (∀ n ∈ xs, IsName n) → ∀ n ∈ xs ++ rest, IsName n := by
      intro xs hx n h
      rcases List.mem_append.mp h with h | h
      · exact hx n h
      · exact hrest n h
    unfold wayOfNames
    split
    · exact ih _ (fun n h => hp n (List.dropLast_subset _ h)) hrest
    · simp only
      split
      · rename_i target hl
        have htarget := hd.links _ _ hl
        split
        · exact happ _ hnext
        · have hway := he ((place ++ [name]) :: entered) (if target.isAbsolute then [] else place)
            target.names (by split <;> simp_all) htarget.isName
          split
          · rename_i p hc
            rw [hc] at hway
            exact ih p hway hrest
          · rename_i stuck hc
            rw [hc] at hway
            exact happ _ hway
      · exact ih _ hnext hrest

lemma wayThrough_isName (hd : d.Proper) (depth : Nat) (entered : List Place) (place : Place)
    (names : List String) (hp : ∀ n ∈ place, IsName n) (hn : ∀ n ∈ names, IsName n) :
    ∀ n ∈ (d.wayThrough depth entered place names).names, IsName n := by
  induction depth generalizing entered place names with
  | zero =>
    refine wayOfNames_isName hd (fun _ p ns hp hn n h => ?_) entered names place hp hn
    rcases List.mem_append.mp h with h | h
    · exact hp n h
    · exact hn n h
  | succ depth ih => exact wayOfNames_isName hd (fun e p ns => ih e p ns) entered names place hp hn

/-- Reading names as if there were no links makes no new names. -/
lemma mem_of_mem_plainNames : ∀ n ∈ plainNames names, n ∈ names := by
  suffices h : ∀ (names place : List String), ∀ n ∈ names.foldl
      (fun place name => if name == ".." then place.dropLast else place ++ [name]) place,
      n ∈ place ∨ n ∈ names by
    intro n hn
    rcases h names [] n hn with h | h
    · cases h
    · exact h
  intro names
  induction names with
  | nil => intro place n hn; exact Or.inl hn
  | cons name rest ih =>
    intro place n hn
    rcases ih _ n hn with hn | hn
    · simp only at hn
      split at hn
      · exact Or.inl (List.dropLast_subset _ hn)
      · rcases List.mem_append.mp hn with hn | hn
        · exact Or.inl hn
        · exact Or.inr (List.mem_cons.mpr (Or.inl (List.mem_singleton.mp hn)))
    · exact Or.inr (List.mem_cons_of_mem _ hn)

end Way

/-- **The path without links of a proper path is proper.** -/
theorem Proper.resolve {d : Disk} (hd : d.Proper) {p q : Path} (hp : p.Proper)
    (h : d.resolve? p = some q) : q.Proper := by
  have hstart : ∀ n ∈ d.start p, IsName n := by
    unfold start
    split
    · simp
    · exact hd.here
  have hway := wayThrough_isName hd d.entries.length [] (d.start p) p.names hstart hp.isName
  unfold resolve? at h
  split at h
  · rename_i place hc
    cases h
    rw [hc] at hway
    exact ⟨by simp, hway⟩
  · rename_i names hc
    rw [hc] at hway
    simp only at h
    split at h
    · cases h
    · cases h
      exact ⟨by simp, fun n hn => hway n (mem_of_mem_plainNames n hn)⟩

end Disk

/-! ## Modules and the directories of overrides -/

variable {d : Disk}

lemma Disk.Proper.resolvePath (hd : d.Proper) {p q : Path} (hp : p.Proper)
    (h : ThemeOverride.resolvePath d p = .ok q) : q.Proper := by
  unfold ThemeOverride.resolvePath at h
  split at h
  · cases h
  · rename_i path hr
    cases h
    exact hd.resolve hp hr

/-- The root of the module of a proper path is proper. -/
lemma Disk.Proper.moduleRoot (hd : d.Proper) {marker : String} {p root : Path} (hp : p.Proper)
    (h : ThemeOverride.moduleRoot d marker p = .ok root) : root.Proper := by
  unfold ThemeOverride.moduleRoot at h
  cases hr : ThemeOverride.resolvePath d p with
  | error f => rw [hr] at h; cases h
  | ok start =>
    rw [hr] at h
    have hstart := hd.resolvePath hp hr
    simp only [Except.bind] at h
    split at h
    · cases h
    split at h
    · rename_i found hf
      cases h
      have hdir : (if d.isDirectory start then start else start.parent).Proper := by
        split
        · exact hstart
        · exact hstart.parent
      rcases List.mem_cons.mp (List.mem_of_find?_eq_some hf) with rfl | hmem
      · exact hdir
      · exact hdir.ancestors _ hmem
    · cases h

lemma moduleRoot_of_moduleAt {settings : Settings} {p : Path} {m : Module}
    (h : moduleAt d settings p = .ok m) : moduleRoot d settings.markerFile p = .ok m.root := by
  unfold moduleAt at h
  cases hr : moduleRoot d settings.markerFile p with
  | error f => rw [hr] at h; cases h
  | ok root =>
    rw [hr] at h
    simp only [bind, Except.bind, pure, Except.pure] at h
    repeat (split at h; · cases h)
    cases h
    rfl

/-- Where a resource lies in a module is a proper path. -/
lemma ResourceType.proper_directory (type : ResourceType) (name : String) :
    (type.directory name).Proper := by
  have hnames : ∀ n ∈ ["src", type.name], Path.IsName n := by
    unfold Path.IsName
    cases type <;> decide
  have hbase : (Path.mk "" ["src", type.name]).Proper := ⟨by simp, hnames⟩
  cases type with
  | query => exact hbase
  | component => exact hbase.child name
  | route => exact hbase.child name
  | store => exact hbase.child name

/-- What lies below the directory for sources is proper where the whole is. -/
lemma proper_of_belowSources {p below : Path} (hp : p.Proper) (h : belowSources p = .ok below) :
    below.Proper := by
  unfold belowSources at h
  split at h
  · rename_i rest hr hn
    cases h
    exact ⟨by simp, fun n hm => hp.isName n (by rw [hn]; exact List.mem_cons_of_mem _ hm)⟩
  · cases h

/-- **The directory that an override goes to is proper.** -/
theorem Disk.Proper.targetDirectory (hd : d.Proper) {relative target directory : Path}
    {isExtension : Bool} {name : Value} (hr : relative.Proper) (ht : target.Proper)
    (h : ThemeOverride.targetDirectory d relative target isExtension name = .ok directory) :
    directory.Proper := by
  unfold ThemeOverride.targetDirectory at h
  cases hroot : ThemeOverride.resolvePath d target with
  | error f => rw [hroot] at h; cases h
  | ok root =>
    have hproper := hd.resolvePath ht hroot
    rw [hroot] at h
    simp only [bind, Except.bind] at h
    split at h
    · cases h
      exact hproper.join hr
    · split at h
      · cases h
      · rename_i text _
        split at h
        · cases h
        · rename_i below hb
          cases h
          exact ((hproper.child "src").child text).join (proper_of_belowSources hr hb)

end ThemeOverride
