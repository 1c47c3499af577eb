import ThemeOverride.Proofs.Disk.Below

/-!
# Files written into one directory

A number of files is written into one directory, which is made for the first of them if it is
missing. What comes of one name in that directory can be told from the disk at the beginning: it does
not depend on which of the others were written before.

## Main definitions

* `ThemeOverride.Disk.admits` — whether a file could be written at a path.
* `ThemeOverride.Disk.Honest` — a path that leads nowhere, and at which nothing lies.
* `ThemeOverride.Disk.Reached` — the disks that come of writing files into one directory.

## Main results

* `ThemeOverride.Disk.Reached.writeNew` — files of other names are written.
* `ThemeOverride.Disk.Reached.exists_eq`, `ThemeOverride.Disk.Reached.isNew_eq` — whether a path leads
  to something, and whether a file can be written there, is as at the beginning.
-/

namespace ThemeOverride.Disk

/-- Whether a file could be written at a path, if the directories above it are made first. -/
def admits (d : Disk) (p : Path) : Bool :=
  match d.makeDirectories p.parent with
  | (made, none) => (made.vacancy p).isOk
  | (_, some _) => false

/-- **A path that hides nothing**: what lies there once the directories above it are made, be it a
link, is something that the path led to before. -/
def Honest (d : Disk) (p : Path) : Prop :=
  ∀ place node, (d.makeDirectories p.parent).1.follow false p = .ok (.node place node) →
    d.exists p = true

/-- **The disks that come of writing files into one directory**, none of them under a given name. The
directory was not asked for yet, or it was made, or it was refused. -/
inductive Reached (directory : Path) (name : String) (start : Disk) : Disk → Prop
  | start : Reached directory name start start
  | made {made d : Disk} {place : Place} (h : start.makeDirectories directory = (made, none))
      (hplace : made.follow true directory = .ok (.node place .directory)) (hk : made.Extends d)
      (hname : d.node? (place ++ [name]) = made.node? (place ++ [name])) :
      Reached directory name start d
  | refused {made : Disk} {fault : DiskFault}
      (h : start.makeDirectories directory = (made, some fault)) : Reached directory name start made

section Writing

variable {d d' : Disk} {p directory : Path} {place : Place} {name other content : String}
  {outcome : Except Failure Bool} {isNew : Bool}

lemma parent_below (directory : Path) (name : String) :
    Path.parent ⟨directory.root, directory.names ++ [name]⟩ = directory := by
  simp [Path.parent]

/-- In a directory, a vacancy is a name under which nothing lies. -/
lemma vacancy_below (hup : name ≠ "..")
    (h : d.follow true directory = .ok (.node place .directory)) :
    d.vacancy ⟨directory.root, directory.names ++ [name]⟩ =
      match d.node? (place ++ [name]) with
      | none => .ok (place ++ [name])
      | some _ => .error (faultAt ⟨directory.root, directory.names ++ [name]⟩ .present) := by
  rw [vacancy, follow_false_child hup h, endAt]
  cases d.node? (place ++ [name]) with
  | none => rfl
  | some node => rfl

lemma createFilled_eq (d : Disk) (p : Path) (content : String) :
    createFilled d p content = match d.vacancy p with
      | .error fault => (d, writeOutcome p fault)
      | .ok place => ((d.put place (.file [])).fill place (Text.encode content), .ok true) := by
  unfold createFilled createFile
  cases d.vacancy p with
  | error fault => rfl
  | ok place => rfl

lemma eq_false_of_writeOutcome {fault : DiskFault} (h : writeOutcome p fault = .ok isNew) :
    isNew = false := by
  unfold writeOutcome at h
  split at h
  · cases h
    rfl
  · cases h

/-- What is written is read. -/
lemma read_of_writeNew (h : writeNew d p content = (d', .ok true)) :
    d'.read p = .ok (Text.encode content) := by
  unfold writeNew at h
  split at h
  · cases h
  · split at h
    · have hnot := eq_false_of_writeOutcome (Prod.mk.inj h).2
      cases hnot
    · rw [createFilled_eq] at h
      split at h
      · have hnot := eq_false_of_writeOutcome (Prod.mk.inj h).2
        cases hnot
      · rename_i place hv
        cases h
        simp [read, follow_put_fill hv]

/-- A directory that could be made leads to a place. -/
lemma exists_follow_of_makeDirectories (h : d.makeDirectories p = (d', none)) :
    ∃ place, d'.follow true p = .ok (.node place .directory) :=
  isDirectory_iff.mp (isDirectory_of_makeDirectories h)

lemma makeDirectories_of_follow (h : d.follow true p = .ok (.node place .directory)) :
    d.makeDirectories p = (d, none) :=
  makeDirectoriesUpTo_of_isDirectory (isDirectory_iff.mpr ⟨place, h⟩) _

end Writing

namespace Reached

variable {start made d d' : Disk} {directory : Path} {place : Place} {name other content : String}
  {isNew : Bool}

lemma extension (h : Reached directory name start d) : start.Extends d := by
  have hgrows := (makeDirectoriesUpTo_grows start directory directory.names.length).keeps
  cases h with
  | start => exact .refl start
  | made h _ hk =>
    rw [← makeDirectories, h] at hgrows
    exact hgrows.trans hk
  | refused h => rwa [← makeDirectories, h] at hgrows

lemma createFilled (h : start.makeDirectories directory = (made, none))
    (hplace : made.follow true directory = .ok (.node place .directory)) (hk : made.Extends d)
    (hname : d.node? (place ++ [name]) = made.node? (place ++ [name])) (hup : other ≠ "..")
    (hne : other ≠ name) (content : String) : Reached directory name start
      (createFilled d ⟨directory.root, directory.names ++ [other]⟩ content).1 := by
  rw [createFilled_eq, vacancy_below hup (hk.follow_node hplace)]
  cases hn : d.node? (place ++ [other]) with
  | some node => exact .made h hplace hk hname
  | none =>
    obtain ⟨-, hother⟩ := node?_put_fill d (ne_nil_of_node?_eq_none hn) (Text.encode content)
    refine .made h hplace (hk.trans (extends_put_fill hn _)) ?_
    rw [hother _ (by simpa using hne.symm), hname]

/-- **Files of other names are written**, and the directory is made for the first of them. -/
theorem writeNew (h : Reached directory name start d) (hup : other ≠ "..") (hne : other ≠ name)
    (content : String) : Reached directory name start
      (writeNew d ⟨directory.root, directory.names ++ [other]⟩ content).1 := by
  unfold ThemeOverride.writeNew
  split
  · exact h
  · rw [parent_below]
    cases h with
    | start =>
      cases hm : start.makeDirectories directory with
      | mk made refused =>
        cases refused with
        | some fault => exact .refused hm
        | none =>
          obtain ⟨place, hplace⟩ := exists_follow_of_makeDirectories hm
          exact createFilled hm hplace (.refl made) rfl hup hne content
    | made h hplace hk hname =>
      rw [makeDirectories_of_follow (hk.follow_node hplace)]
      exact createFilled h hplace hk hname hup hne content
    | refused h =>
      obtain ⟨fault', hagain⟩ := makeDirectories_refused h
      rw [hagain]
      exact .refused h

section Honest

variable (h : Reached directory name start d) (hup : name ≠ "..")
  (hs : start.Honest ⟨directory.root, directory.names ++ [name]⟩)

include h hup hs

/-- **A path leads to something if it did at the beginning.** -/
theorem exists_eq : d.exists ⟨directory.root, directory.names ++ [name]⟩ =
    start.exists ⟨directory.root, directory.names ++ [name]⟩ := by
  rw [Bool.eq_iff_iff]
  refine ⟨fun hd => ?_, h.extension.exists_mono⟩
  obtain ⟨node, hnode⟩ := Option.isSome_iff_exists.mp hd
  unfold nodeAt? at hnode
  split at hnode
  · rename_i found held hfollow
    obtain ⟨found', held', hlies⟩ := exists_follow_false hfollow
    unfold Honest at hs
    rw [parent_below] at hs
    cases h with
    | start => exact hd
    | refused h =>
      rw [h] at hs
      exact hs _ _ hlies
    | @made made _ place h hplace hk hname =>
      rw [h] at hs
      have hthere := follow_false_child hup (hk.follow_node hplace)
      have hbefore := follow_false_child hup hplace
      rw [endAt, hname, ← endAt, ← hbefore] at hthere
      exact hs _ _ (hthere.symm.trans hlies)
  · cases hnode

/-- **A file can be written if it could at the beginning.** -/
theorem isNew_eq (hno : start.exists ⟨directory.root, directory.names ++ [name]⟩ = false)
    (hw : ThemeOverride.writeNew d ⟨directory.root, directory.names ++ [name]⟩ content =
      (d', .ok isNew)) :
    isNew = start.admits ⟨directory.root, directory.names ++ [name]⟩ := by
  have hwhere := h.exists_eq hup hs
  unfold ThemeOverride.writeNew at hw
  rw [hwhere, hno, if_neg (by simp), parent_below] at hw
  rw [admits, parent_below]
  have hfilled : ∀ {d made : Disk}, made.vacancy ⟨directory.root, directory.names ++ [name]⟩ =
      d.vacancy ⟨directory.root, directory.names ++ [name]⟩ →
      ThemeOverride.createFilled d ⟨directory.root, directory.names ++ [name]⟩ content =
        (d', .ok isNew) →
      isNew = (made.vacancy ⟨directory.root, directory.names ++ [name]⟩).isOk := by
    intro d made hsame hw
    rw [createFilled_eq] at hw
    rw [hsame]
    split at hw
    · rename_i fault hv
      rw [hv, eq_false_of_writeOutcome (Prod.mk.inj hw).2]
      rfl
    · rename_i place hv
      rw [Prod.mk.injEq] at hw
      rw [hv, ← Except.ok.inj hw.2]
      rfl
  cases h with
  | start =>
    cases hm : start.makeDirectories directory with
    | mk made refused =>
      rw [hm] at hw
      cases refused with
      | some fault => exact eq_false_of_writeOutcome (Prod.mk.inj hw).2
      | none => exact hfilled rfl hw
  | @made made _ place h hplace hk hname =>
    rw [makeDirectories_of_follow (hk.follow_node hplace)] at hw
    rw [h]
    refine hfilled ?_ hw
    rw [vacancy_below hup hplace, vacancy_below hup (hk.follow_node hplace), hname]
  | @refused made fault h =>
    obtain ⟨fault', hagain⟩ := makeDirectories_refused h
    rw [hagain] at hw
    rw [h]
    exact eq_false_of_writeOutcome (Prod.mk.inj hw).2

end Honest

end Reached

end ThemeOverride.Disk
