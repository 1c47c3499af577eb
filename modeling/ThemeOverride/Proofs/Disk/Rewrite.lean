import Mathlib.Tactic.Lemma
import ThemeOverride.Disk.Access

/-!
# Files with other contents

What a disk holds can be written anew without moving anything: the same files, directories and links
lie at the same places, and only the bytes in the files are others. Every path then leads where it led
before.

## Main definitions

* `ThemeOverride.Disk.rewrite` — a disk with other contents in its files.

## Main results

* `ThemeOverride.Disk.follow_rewrite` — a path leads to the same place.
* `ThemeOverride.Disk.resolve?_rewrite` — a path is resolved to the same path.
* `ThemeOverride.Disk.makeDirectoriesUpTo_rewrite` — the same directories are made.
-/

namespace ThemeOverride

/-- A file with its content changed; directories and links as they are. -/
def Node.rewrite (change : List UInt8 → List UInt8) : Node → Node
  | .file content => .file (change content)
  | .directory => .directory
  | .link target => .link target

/-- What is found, with its content changed. -/
def Found.rewrite (change : Place → List UInt8 → List UInt8) : Found → Found
  | .node place n => .node place (n.rewrite (change place))
  | .vacant place => .vacant place

namespace Disk

/-- A disk with other contents in its files. -/
def rewrite (change : Place → List UInt8 → List UInt8) (d : Disk) : Disk :=
  { d with entries := d.entries.map fun e => (e.1, e.2.rewrite (change e.1)) }

variable (d : Disk) (change : Place → List UInt8 → List UInt8)

lemma node?_rewrite (place : Place) :
    (d.rewrite change).node? place = (d.node? place).map (Node.rewrite (change place)) := by
  unfold node? rewrite
  split
  · rfl
  · dsimp only
    induction d.entries with
    | nil => rfl
    | cons e rest ih =>
      rw [List.map_cons, List.lookup_cons, List.lookup_cons]
      cases he : place == e.1 with
      | false => exact ih
      | true =>
        rw [beq_iff_eq.mp he]
        rfl

lemma followNames_rewrite {enter enter' : Place → List String → Except DiskCause Found}
    (he : ∀ place names, enter' place names = (enter place names).map (Found.rewrite change))
    (atEnd : Bool) (place : Place) (names : List String) :
    (d.rewrite change).followNames enter' atEnd place names =
      (d.followNames enter atEnd place names).map (Found.rewrite change) := by
  induction names generalizing place with
  | nil => rfl
  | cons name rest ih =>
    rw [followNames, followNames]
    split
    · exact ih _
    · dsimp only
      rw [node?_rewrite]
      cases d.node? (place ++ [name]) with
      | none =>
        cases rest with
        | nil => rfl
        | cons _ _ => rfl
      | some node =>
        cases node with
        | directory => exact ih _
        | file content =>
          cases rest with
          | nil => rfl
          | cons _ _ => rfl
        | link target =>
          dsimp only [Option.map, Node.rewrite]
          split
          · rfl
          · exact he _ _

lemma followLinks_rewrite (atEnd : Bool) (n : Nat) (place : Place) (names : List String) :
    (d.rewrite change).followLinks atEnd n place names =
      (d.followLinks atEnd n place names).map (Found.rewrite change) := by
  induction n generalizing place names with
  | zero =>
    have hloop : ∀ (_ : Place) (_ : List String), (.error .linkLoop : Except DiskCause Found) =
        Except.map (Found.rewrite change) (.error .linkLoop) := fun _ _ => rfl
    exact followNames_rewrite d change hloop atEnd place names
  | succ n ih => exact followNames_rewrite d change ih atEnd place names

/-- **A path leads to the same place**, whatever is in the files. -/
theorem follow_rewrite (atEnd : Bool) (p : Path) :
    (d.rewrite change).follow atEnd p = (d.follow atEnd p).map (Found.rewrite change) :=
  followLinks_rewrite d change atEnd mostLinks (d.start p) p.names

@[simp] lemma isFile_rewrite (p : Path) : (d.rewrite change).isFile p = d.isFile p := by
  unfold isFile nodeAt?
  rw [follow_rewrite]
  cases d.follow true p with
  | error cause => rfl
  | ok found =>
    cases found with
    | vacant place => rfl
    | node place node => cases node <;> rfl

@[simp] lemma isDirectory_rewrite (p : Path) : (d.rewrite change).isDirectory p = d.isDirectory p := by
  unfold isDirectory nodeAt?
  rw [follow_rewrite]
  cases d.follow true p with
  | error cause => rfl
  | ok found =>
    cases found with
    | vacant place => rfl
    | node place node => cases node <;> rfl

@[simp] lemma exists_rewrite (p : Path) : (d.rewrite change).exists p = d.exists p := by
  unfold «exists» nodeAt?
  rw [follow_rewrite]
  cases d.follow true p with
  | error cause => rfl
  | ok found => cases found <;> rfl

@[simp] lemma vacancy_rewrite (p : Path) : (d.rewrite change).vacancy p = d.vacancy p := by
  unfold vacancy
  rw [follow_rewrite]
  cases d.follow false p with
  | error cause => rfl
  | ok found => cases found <;> rfl

lemma list_rewrite (p : Path) : (d.rewrite change).list p = d.list p := by
  unfold list
  rw [follow_rewrite]
  cases d.follow true p with
  | error cause => rfl
  | ok found =>
    cases found with
    | vacant place => rfl
    | node place node =>
      cases node with
      | directory => simp [Except.map, Found.rewrite, Node.rewrite, namesIn, rewrite,
          List.filterMap_map, Function.comp_def]
      | file content => rfl
      | link target => rfl

lemma put_directory_rewrite (place : Place) :
    (d.rewrite change).put place .directory = (d.put place .directory).rewrite change := by
  have hentries : ∀ entries : List (Place × Node),
      putEntry place .directory (entries.map fun e => (e.1, e.2.rewrite (change e.1))) =
        (putEntry place .directory entries).map fun e => (e.1, e.2.rewrite (change e.1)) := by
    intro entries
    induction entries with
    | nil => rfl
    | cons e rest ih =>
      rw [List.map_cons, putEntry, putEntry]
      split
      · rfl
      · rw [ih, List.map_cons]
  simp [put, rewrite, hentries]

lemma makeDirectory_rewrite (p : Path) :
    (d.rewrite change).makeDirectory p = (d.makeDirectory p).map (rewrite change) := by
  unfold makeDirectory
  rw [vacancy_rewrite]
  cases d.vacancy p with
  | error fault => rfl
  | ok place => simp [Except.map, put_directory_rewrite]

/-- **The same directories are made**, whatever is in the files. -/
theorem makeDirectoriesUpTo_rewrite (p : Path) (above : Nat) :
    (d.rewrite change).makeDirectoriesUpTo p above =
      ((d.makeDirectoriesUpTo p above).1.rewrite change, (d.makeDirectoriesUpTo p above).2) := by
  have hor : ∀ (d : Disk) (p : Path) (fault : DiskFault), (d.rewrite change).orDirectory p fault =
      ((d.orDirectory p fault).1.rewrite change, (d.orDirectory p fault).2) := fun d p fault => by
    simp [orDirectory]
  have hzero : ∀ (d : Disk) (p : Path), (d.rewrite change).makeDirectoriesUpTo p 0 =
      ((d.makeDirectoriesUpTo p 0).1.rewrite change, (d.makeDirectoriesUpTo p 0).2) := by
    intro d p
    unfold makeDirectoriesUpTo
    rw [makeDirectory_rewrite]
    cases d.makeDirectory p with
    | ok made => rfl
    | error fault =>
      dsimp only [Except.map]
      split
      · rfl
      · exact hor d p fault
  induction above generalizing p with
  | zero => exact hzero d p
  | succ above ih =>
    unfold makeDirectoriesUpTo
    rw [makeDirectory_rewrite]
    cases d.makeDirectory p with
    | ok made => rfl
    | error fault =>
      dsimp only [Except.map]
      split
      · exact hor d p fault
      · rw [ih]
        cases d.makeDirectoriesUpTo p.parent above with
        | mk made refused =>
          cases refused with
          | some fault => rfl
          | none => exact hzero made p

/-- A file that is not changed is read as before. -/
lemma read_rewrite_eq {p : Path}
    (h : ∀ place content, d.follow true p = .ok (.node place (.file content)) →
      change place content = content) : (d.rewrite change).read p = d.read p := by
  unfold read
  rw [follow_rewrite]
  cases hf : d.follow true p with
  | error cause => rfl
  | ok found =>
    cases found with
    | vacant place => rfl
    | node place node =>
      cases node with
      | directory => rfl
      | link target => rfl
      | file content =>
        have hsame := h place content hf
        simp only [Except.map, Found.rewrite, Node.rewrite, hsame]

lemma wayOfNames_rewrite {enter enter' : List Place → Place → List String → Way}
    (he : ∀ entered place names, enter' entered place names = enter entered place names)
    (entered : List Place) (place : Place) (names : List String) :
    (d.rewrite change).wayOfNames enter' entered place names =
      d.wayOfNames enter entered place names := by
  induction names generalizing place with
  | nil => rfl
  | cons name rest ih =>
    rw [wayOfNames, wayOfNames]
    split
    · exact ih _
    · dsimp only
      rw [node?_rewrite]
      cases d.node? (place ++ [name]) with
      | none => exact ih _
      | some node =>
        cases node with
        | directory => exact ih _
        | file content => exact ih _
        | link target =>
          dsimp only [Option.map, Node.rewrite]
          split
          · rfl
          · rw [he]
            split
            · exact ih _
            · rfl

lemma wayThrough_rewrite (depth : Nat) (entered : List Place) (place : Place)
    (names : List String) :
    (d.rewrite change).wayThrough depth entered place names =
      d.wayThrough depth entered place names := by
  induction depth generalizing entered place names with
  | zero => exact wayOfNames_rewrite d change (fun _ _ _ => rfl) entered place names
  | succ depth ih => exact wayOfNames_rewrite d change ih entered place names

/-- **A path is resolved to the same path**, whatever is in the files. -/
theorem resolve?_rewrite (p : Path) : (d.rewrite change).resolve? p = d.resolve? p := by
  have hlength : (d.rewrite change).entries.length = d.entries.length := by simp [rewrite]
  have hstart : (d.rewrite change).start p = d.start p := rfl
  unfold resolve?
  rw [hlength, hstart, wayThrough_rewrite]
  cases d.wayThrough d.entries.length [] (d.start p) p.names with
  | clear place => rfl
  | stuck names =>
    dsimp only
    rw [follow_rewrite]
    cases d.follow true ⟨"/", plainNames names⟩ with
    | ok found => rfl
    | error cause => cases cause <;> rfl

end Disk

end ThemeOverride
