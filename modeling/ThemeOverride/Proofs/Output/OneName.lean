import ThemeOverride.Proofs.Output.Outcome

/-!
# A file that is found or written

Files are written into one directory, one of them under a given name, where perhaps something lies
already. If nothing but a file can lie there, a file lies there as soon as one was to be written
under this name and another file is new in the directory: a writer that found something has found
that file.

## Main definitions

* `ThemeOverride.Disk.FileOrNothing` — nothing but a file lies at a path.
* `ThemeOverride.Disk.Awaits` — a file lies under a name in a directory, or none was written there
  yet.

## Main results

* `ThemeOverride.Disk.Awaits.writeNew` — a writer into the directory keeps it so.
* `ThemeOverride.Disk.Awaits.isFile_of_writeNew` — a file lies there once one was to be written.
-/

namespace ThemeOverride.Disk

/-- **Nothing but a file lies at a path**: what lies there once the directories above it are made,
be it a link, is a file or leads to one, and did so before. -/
def FileOrNothing (d : Disk) (p : Path) : Prop :=
  ∀ place node, (d.makeDirectories p.parent).1.follow false p = .ok (.node place node) →
    d.isFile p = true

/-- A file lies under a name in a directory, or the disk comes of writing files of other names into
it. -/
def Awaits (directory : Path) (name : String) (start d : Disk) : Prop :=
  d.isFile ⟨directory.root, directory.names ++ [name]⟩ = true ∨ Reached directory name start d

variable {start d d₁ : Disk} {directory : Path} {name other content text : String} {isNew : Bool}

/-- What is written lies there as a file. -/
lemma isFile_of_writeNew {p : Path} (h : (ThemeOverride.writeNew d p content).2 = .ok true) :
    (ThemeOverride.writeNew d p content).1.isFile p = true := by
  obtain ⟨-, place, -, -, -, hfollow⟩ := exists_of_writeNew_eq_true h
  simp [isFile, nodeAt?, hfollow]

namespace Reached

variable (h : Reached directory name start d)

include h

/-- **The directory is made or refused as at the beginning**, and what then lies under the name is
what lies there when it is made at the beginning. -/
lemma makeDirectories_cases (hup : name ≠ "..") :
    (∃ made, d.makeDirectories directory = (made, none) ∧ Reached directory name start made ∧
      made.follow false ⟨directory.root, directory.names ++ [name]⟩ =
        (start.makeDirectories directory).1.follow false
          ⟨directory.root, directory.names ++ [name]⟩) ∨
    ∃ made fault fault', d.makeDirectories directory = (made, some fault) ∧
      start.makeDirectories directory = (made, some fault') := by
  cases h with
  | start =>
    cases hm : start.makeDirectories directory with
    | mk made refused =>
      cases refused with
      | some fault => exact .inr ⟨made, fault, fault, rfl, rfl⟩
      | none =>
        obtain ⟨place, hplace⟩ := exists_follow_of_makeDirectories hm
        exact .inl ⟨made, rfl, .made hm hplace (.refl made) rfl, rfl⟩
  | made hm hplace hk hname =>
    refine .inl ⟨d, makeDirectories_of_follow (hk.follow_node hplace), .made hm hplace hk hname, ?_⟩
    rw [follow_false_child hup (hk.follow_node hplace), hm, follow_false_child hup hplace, endAt,
      endAt, hname]
  | refused hm =>
    obtain ⟨fault', hagain⟩ := makeDirectories_refused hm
    exact .inr ⟨d, fault', _, hagain, hm⟩

/-- A file that is not written under the name makes no difference. -/
lemma writeNew_same (hup : name ≠ "..")
    (hnot : (ThemeOverride.writeNew d ⟨directory.root, directory.names ++ [name]⟩ content).2 ≠
      .ok true) : Reached directory name start
        (ThemeOverride.writeNew d ⟨directory.root, directory.names ++ [name]⟩ content).1 := by
  have hcases := h.makeDirectories_cases hup
  obtain ⟨-, hw⟩ |
      ⟨-, ⟨made, fault, hm, hw⟩ | ⟨made, fault, hm, -, hw⟩ | ⟨made, place, -, -, hw⟩⟩ :=
    writeNew_cases d ⟨directory.root, directory.names ++ [name]⟩ content
  · rw [hw]
    exact h
  · rw [parent_below] at hm
    obtain ⟨made', hm', -⟩ | ⟨made', _, _, hm', hstart⟩ := hcases
    · rw [hm] at hm'
      cases hm'
    · rw [hm] at hm'
      cases hm'
      rw [hw]
      exact .refused hstart
  · rw [parent_below] at hm
    obtain ⟨made', hm', hreached, -⟩ | ⟨made', _, _, hm', -⟩ := hcases
    · rw [hm] at hm'
      cases hm'
      rw [hw]
      exact hreached
    · rw [hm] at hm'
      cases hm'
  · rw [hw] at hnot
    exact absurd rfl hnot

/-- What lies under the name is a file, if nothing else can lie there. -/
lemma isFile_of_occupied (hup : name ≠ "..")
    (hfree : start.FileOrNothing ⟨directory.root, directory.names ++ [name]⟩)
    (hm : d.makeDirectories directory = (d₁, none))
    (hocc : d₁.Occupied ⟨directory.root, directory.names ++ [name]⟩) :
    d₁.isFile ⟨directory.root, directory.names ++ [name]⟩ = true := by
  unfold FileOrNothing at hfree
  rw [parent_below] at hfree
  obtain ⟨place, node, hfollow⟩ := hocc
  obtain ⟨made, hm', hreached, hsame⟩ | ⟨made, _, _, hm', -⟩ := h.makeDirectories_cases hup
  · rw [hm] at hm'
    cases hm'
    rw [hsame] at hfollow
    exact hreached.extension.isFile_mono (hfree place node hfollow)
  · rw [hm] at hm'
    cases hm'

/-- **What a writer has found** under the name is a file, or the directory is refused. -/
lemma isFile_or_refused (hup : name ≠ "..")
    (hfree : start.FileOrNothing ⟨directory.root, directory.names ++ [name]⟩)
    (hw : ThemeOverride.writeNew d ⟨directory.root, directory.names ++ [name]⟩ content =
      (d₁, .ok false)) :
    d₁.isFile ⟨directory.root, directory.names ++ [name]⟩ = true ∨
      ∃ fault, start.makeDirectories directory = (d₁, some fault) := by
  obtain ⟨he, hw'⟩ | ⟨-, ⟨made, fault, hm, hw'⟩ | ⟨made, fault, hm, hv, hw'⟩ |
      ⟨made, place, -, -, hw'⟩⟩ :=
    writeNew_cases d ⟨directory.root, directory.names ++ [name]⟩ content
  · rw [hw] at hw'
    cases hw'
    have hocc := occupied_of_exists he
    have hm : d.makeDirectories directory = (d, none) := by
      obtain ⟨place, node, hfollow⟩ := hocc
      have hparent := isDirectory_parent (by simp) hfollow
      rw [parent_below] at hparent
      exact makeDirectoriesUpTo_of_isDirectory hparent _
    exact .inl (h.isFile_of_occupied hup hfree hm hocc)
  · rw [parent_below] at hm
    rw [hw] at hw'
    obtain ⟨made', hm', -⟩ | ⟨made', _, fault', hm', hstart⟩ := h.makeDirectories_cases hup
    · rw [hm] at hm'
      cases hm'
    · rw [hm] at hm'
      cases hm'
      obtain rfl : d₁ = made := congrArg Prod.fst hw'
      exact .inr ⟨fault', hstart⟩
  · rw [parent_below] at hm
    rw [hw] at hw'
    have hocc := vacancy_present_iff.mp
      ⟨fault, hv, writeOutcome_eq_false_iff.mp (congrArg Prod.snd hw').symm⟩
    obtain rfl : d₁ = made := congrArg Prod.fst hw'
    exact .inl (h.isFile_of_occupied hup hfree hm hocc)
  · rw [hw] at hw'
    cases hw'

end Reached

/-- No file is new in a directory that was refused. -/
lemma writeNew_ne_true_of_refused {fault : DiskFault}
    (h : start.makeDirectories directory = (d, some fault)) :
    (ThemeOverride.writeNew d ⟨directory.root, directory.names ++ [other]⟩ content).2 ≠
      .ok true := by
  intro htrue
  have hadmits := ((writeNew_eq_true_iff _ _ _).mp htrue).2
  obtain ⟨fault', hagain⟩ := makeDirectories_refused h
  rw [admits, parent_below, hagain] at hadmits
  cases hadmits

namespace Awaits

variable (h : Awaits directory name start d) (hup : name ≠ "..")

include h hup

/-- **A writer into the directory keeps it so**, under whatever name it writes. -/
lemma writeNew (hother : other ≠ "..") (content : String) : Awaits directory name start
    (ThemeOverride.writeNew d ⟨directory.root, directory.names ++ [other]⟩ content).1 := by
  rcases h with hfile | hreached
  · exact .inl ((writeNew_grows d _ content).keeps.isFile_mono hfile)
  · rcases eq_or_ne other name with rfl | hne
    · by_cases htrue : (ThemeOverride.writeNew d
          ⟨directory.root, directory.names ++ [other]⟩ content).2 = .ok true
      · exact .inl (isFile_of_writeNew htrue)
      · exact .inr (hreached.writeNew_same hup htrue)
    · exact .inr (hreached.writeNew hother hne content)

/-- **A file lies under the name once one was to be written there**, if nothing else can lie there
and another file is new in the directory thereafter. -/
theorem isFile_of_writeNew (hfree : start.FileOrNothing ⟨directory.root, directory.names ++ [name]⟩)
    (hw : ThemeOverride.writeNew d ⟨directory.root, directory.names ++ [name]⟩ content =
      (d₁, .ok isNew))
    (hlater : (ThemeOverride.writeNew d₁ ⟨directory.root, directory.names ++ [other]⟩ text).2 =
      .ok true) :
    d₁.isFile ⟨directory.root, directory.names ++ [name]⟩ = true := by
  cases isNew with
  | true =>
    have hfile := Disk.isFile_of_writeNew (congrArg Prod.snd hw)
    rwa [hw] at hfile
  | false =>
    rcases h with hfile | hreached
    · have hkeeps := (writeNew_grows d ⟨directory.root, directory.names ++ [name]⟩ content).keeps
      rw [hw] at hkeeps
      exact hkeeps.isFile_mono hfile
    · rcases hreached.isFile_or_refused hup hfree hw with hfile | ⟨fault, hrefused⟩
      · exact hfile
      · exact absurd hlater (writeNew_ne_true_of_refused hrefused)

end Awaits

end ThemeOverride.Disk
