import ThemeOverride.Proofs.Disk.OneDirectory
import ThemeOverride.Proofs.Output.Interference
import ThemeOverride.Proofs.Run.Again

/-!
# What comes of writing a file

A writer tells that it wrote, that something was there already, or that the file cannot be written.
It wrote if nothing lay at the path and a file could be created there, and then the file holds exactly
the content; in all other cases it has made directories at most. That something was there is told
rightly where something lies at the path itself. It is also told, though nothing lies there, where a
directory above is refused since something else lies in its place.

## Main definitions

* `ThemeOverride.Disk.Occupied` — something lies at a path itself, be it a link that leads nowhere.
* `ThemeOverride.IsObstructed` — nothing lies at a path, but something stands in the way of the file.
* `ThemeOverride.KeepsContract` — what a writer tells is what it has found and done.

## Main results

* `ThemeOverride.writeNew_eq_true_iff`, `ThemeOverride.writeNew_eq_false_iff` — when a writer tells
  what.
* `ThemeOverride.gainsDirectories_of_writeNew` — a writer that did not write has made directories at
  most.
* `ThemeOverride.keepsContract_iff` — a writer keeps its contract unless something stands in the way.
* `ThemeOverride.IsRefused.exists_occupied` — what stands in the way.
-/

namespace ThemeOverride

namespace Disk

variable {d after : Disk} {p : Path}

/-- **Something lies at a path itself**: a file, a directory or a link, wherever the link leads. -/
def Occupied (d : Disk) (p : Path) : Prop :=
  ∃ place node, d.follow false p = .ok (.node place node)

lemma Occupied.mono (h : d.Occupied p) (hd : d.Extends after) : after.Occupied p := by
  obtain ⟨place, node, hf⟩ := h
  exact ⟨place, node, hd.follow_node hf⟩

/-- Where a path leads to something, something lies. -/
lemma occupied_of_exists (h : d.exists p = true) : d.Occupied p := by
  obtain ⟨node, hn⟩ := Option.isSome_iff_exists.mp h
  unfold nodeAt? at hn
  split at hn
  · rename_i place node hf
    exact exists_follow_false hf
  · cases hn

lemma followNames_ne_present {enter : Place → List String → Except DiskCause Found} {atEnd : Bool}
    (he : ∀ start names, enter start names ≠ .error .present) (start : Place) (names : List String) :
    d.followNames enter atEnd start names ≠ .error .present := by
  induction names generalizing start with
  | nil => simp [followNames]
  | cons name rest ih =>
    rw [followNames]
    split
    · exact ih _
    · dsimp only
      split
      · split <;> simp
      · exact ih _
      · split <;> simp
      · split
        · simp
        · exact he _ _

/-- That something is there is no reason why a path leads nowhere. -/
lemma follow_ne_present (atEnd : Bool) (d : Disk) (p : Path) :
    d.follow atEnd p ≠ .error .present := by
  have hlinks : ∀ (n : Nat) (start : Place) (names : List String),
      d.followLinks atEnd n start names ≠ .error .present := by
    intro n
    induction n with
    | zero => exact followNames_ne_present fun _ _ => by simp
    | succ n ih => exact followNames_ne_present ih
  exact hlinks mostLinks _ _

/-- There is no vacancy since something is there exactly where something lies. -/
lemma vacancy_present_iff :
    (∃ fault, d.vacancy p = .error fault ∧ fault.cause = .present) ↔ d.Occupied p := by
  unfold vacancy Occupied
  cases hf : d.follow false p with
  | error cause =>
    have hne : cause ≠ .present := by
      rintro rfl
      exact follow_ne_present false d p hf
    simp [faultAt, hne]
  | ok found =>
    cases found with
    | node place node => simp [faultAt]
    | vacant place => simp

lemma Occupied.vacancy_eq (h : d.Occupied p) : d.vacancy p = .error (faultAt p .present) := by
  obtain ⟨place, node, hf⟩ := h
  simp [vacancy, hf]

/-- Above something that is no way up itself there is a directory. -/
lemma Occupied.isDirectory_parent (h : d.Occupied p) (hno : d.exists p = false) :
    d.isDirectory p.parent = true := by
  obtain ⟨place, node, hf⟩ := h
  refine Disk.isDirectory_parent (fun hnil => ?_) hf
  have hroot : d.follow true p = .ok (.node (d.start p) .directory) := by
    rw [follow, hnil, mostLinks, followLinks, followNames]
  simp [«exists», nodeAt?, hroot] at hno

end Disk

/-! ## When a writer tells what -/

section Outcomes

variable {d : Disk} {p : Path} {content : String}

/-- **The four ends of a writer.** Something is found at the path; or the directories above are
refused; or they are made, and then there is no vacancy, or there is one and the file is written. -/
lemma writeNew_cases (d : Disk) (p : Path) (content : String) :
    (d.exists p = true ∧ writeNew d p content = (d, .ok false)) ∨
    d.exists p = false ∧
      ((∃ made fault, d.makeDirectories p.parent = (made, some fault) ∧
        writeNew d p content = (made, writeOutcome p fault)) ∨
      (∃ made fault, d.makeDirectories p.parent = (made, none) ∧ made.vacancy p = .error fault ∧
        writeNew d p content = (made, writeOutcome p fault)) ∨
      ∃ made place, d.makeDirectories p.parent = (made, none) ∧ made.vacancy p = .ok place ∧
        writeNew d p content =
          ((made.put place (.file [])).fill place (Text.encode content), .ok true)) := by
  unfold writeNew
  cases he : d.exists p with
  | true => exact Or.inl ⟨rfl, by simp⟩
  | false =>
    refine Or.inr ⟨rfl, ?_⟩
    rcases hm : d.makeDirectories p.parent with ⟨made, _ | fault⟩
    · cases hv : made.vacancy p with
      | error fault =>
        exact Or.inr (Or.inl ⟨made, fault, rfl, hv, by simp [Disk.createFilled_eq, hv]⟩)
      | ok place =>
        exact Or.inr (Or.inr ⟨made, place, rfl, hv, by simp [Disk.createFilled_eq, hv]⟩)
    · exact Or.inl ⟨made, fault, rfl, by simp⟩

lemma writeOutcome_eq_false_iff {fault : DiskFault} :
    writeOutcome p fault = .ok false ↔ fault.cause = .present := by
  unfold writeOutcome
  split
  · rename_i h
    simpa using beq_iff_eq.mp h
  · rename_i h
    simpa using h

lemma writeOutcome_ne_true {fault : DiskFault} : writeOutcome p fault ≠ .ok true := by
  intro h
  cases Disk.eq_false_of_writeOutcome h

/-- Making directories takes nothing away. -/
lemma Disk.extends_of_makeDirectories {made : Disk} {refused : Option DiskFault} {q : Path}
    (h : d.makeDirectories q = (made, refused)) : d.Extends made := by
  have hgrows := (Disk.makeDirectoriesUpTo_grows d q q.names.length).keeps
  rwa [← Disk.makeDirectories, h] at hgrows

/-- What lies at a path is found there by the writer. -/
lemma writeNew_of_occupied (h : d.Occupied p) (content : String) :
    writeNew d p content = (d, .ok false) := by
  unfold writeNew
  cases he : d.exists p with
  | true => simp
  | false =>
    have hmade : d.makeDirectories p.parent = (d, none) :=
      Disk.makeDirectoriesUpTo_of_isDirectory (h.isDirectory_parent he) _
    simp [hmade, Disk.createFilled_eq, h.vacancy_eq, writeOutcome, Disk.faultAt]

/-- **A writer tells that it wrote** exactly if nothing lies at the path and a file can be created
there. -/
theorem writeNew_eq_true_iff (d : Disk) (p : Path) (content : String) :
    (writeNew d p content).2 = .ok true ↔ ¬ d.Occupied p ∧ d.admits p = true := by
  constructor
  · intro htrue
    have hno : ¬ d.Occupied p := fun h => by
      rw [writeNew_of_occupied h] at htrue
      cases htrue
    refine ⟨hno, ?_⟩
    obtain ⟨-, h⟩ | ⟨-, ⟨made, fault, -, h⟩ | ⟨made, fault, -, -, h⟩ | ⟨made, place, hm, hv, -⟩⟩ :=
      writeNew_cases d p content
    · rw [h] at htrue
      cases htrue
    · rw [h] at htrue
      exact absurd htrue writeOutcome_ne_true
    · rw [h] at htrue
      exact absurd htrue writeOutcome_ne_true
    · rw [Disk.admits, hm]
      simp [hv, Except.isOk, Except.toBool]
  · rintro ⟨hno, hadmits⟩
    obtain ⟨he, -⟩ | ⟨-, ⟨made, fault, hm, -⟩ | ⟨made, fault, hm, hv, -⟩ | ⟨made, place, -, -, h⟩⟩ :=
      writeNew_cases d p content
    · exact absurd (Disk.occupied_of_exists he) hno
    · rw [Disk.admits, hm] at hadmits
      cases hadmits
    · rw [Disk.admits, hm] at hadmits
      simp [hv, Except.isOk, Except.toBool] at hadmits
    · rw [h]

/-- **Something stands in the way of a file** though nothing lies at its path: a directory above is
refused since something else lies in its place, or once the directories above are made the path
leads to something, as one that leads up again can. -/
def IsObstructed (d : Disk) (p : Path) : Prop :=
  ¬ d.Occupied p ∧ (IsRefused d p.parent ∨
    (d.makeDirectories p.parent).2 = none ∧ (d.makeDirectories p.parent).1.Occupied p)

/-- **A writer tells that something was there** exactly if something lies at the path, or stands in
the way. -/
theorem writeNew_eq_false_iff (d : Disk) (p : Path) (content : String) :
    (writeNew d p content).2 = .ok false ↔ d.Occupied p ∨ IsObstructed d p := by
  by_cases hocc : d.Occupied p
  · simp [writeNew_of_occupied hocc, hocc]
  · simp only [hocc, false_or, IsObstructed, not_false_eq_true, true_and]
    obtain ⟨he, -⟩ | ⟨-, ⟨made, fault, hm, h⟩ | ⟨made, fault, hm, hv, h⟩ | ⟨made, place, hm, hv, h⟩⟩ :=
      writeNew_cases d p content
    · exact absurd (Disk.occupied_of_exists he) hocc
    · simp [h, hm, IsRefused, writeOutcome_eq_false_iff]
    · simp [h, hm, IsRefused, writeOutcome_eq_false_iff, ← Disk.vacancy_present_iff, hv]
    · simp [h, hm, IsRefused, ← Disk.vacancy_present_iff, hv]

/-- **In all other cases the failure names the path**, and why the file cannot be written. -/
theorem writeNew_eq_error {e : Failure} (h : (writeNew d p content).2 = .error e) :
    ∃ fault : DiskFault, fault.cause ≠ .present ∧ e = .output p.toString (some fault.message) := by
  have hout : ∀ fault, writeOutcome p fault = .error e →
      ∃ fault : DiskFault, fault.cause ≠ .present ∧ e = .output p.toString (some fault.message) := by
    intro fault hf
    unfold writeOutcome at hf
    split at hf
    · cases hf
    · rename_i hcause
      cases hf
      exact ⟨fault, by simpa using hcause, rfl⟩
  obtain ⟨-, hw⟩ | ⟨-, ⟨made, fault, -, hw⟩ | ⟨made, fault, -, -, hw⟩ | ⟨made, place, -, -, hw⟩⟩ :=
    writeNew_cases d p content
  · rw [hw] at h
    cases h
  · rw [hw] at h
    exact hout fault h
  · rw [hw] at h
    exact hout fault h
  · rw [hw] at h
    cases h

/-- **A writer that did not write has made directories at most.** -/
theorem gainsDirectories_of_writeNew (h : (writeNew d p content).2 ≠ .ok true) :
    d.GainsDirectories (writeNew d p content).1 := by
  have hmade : ∀ {made refused}, d.makeDirectories p.parent = (made, refused) →
      d.GainsDirectories made := by
    intro made refused hm
    have hgains := Disk.makeDirectoriesUpTo_gains d p.parent p.parent.names.length
    rwa [← Disk.makeDirectories, hm] at hgains
  obtain ⟨-, hw⟩ | ⟨-, ⟨made, fault, hm, hw⟩ | ⟨made, fault, hm, -, hw⟩ | ⟨made, place, -, -, hw⟩⟩ :=
    writeNew_cases d p content
  · rw [hw]
    exact .refl d
  · rw [hw]
    exact hmade hm
  · rw [hw]
    exact hmade hm
  · rw [hw] at h
    exact absurd rfl h

/-- **What is written is a new file with the content**, and else directories at most. -/
theorem exists_of_writeNew_eq_true (h : (writeNew d p content).2 = .ok true) :
    ∃ made place, d.GainsDirectories made ∧ d.node? place = none ∧
      (∀ other, other ≠ place → (writeNew d p content).1.node? other = made.node? other) ∧
      (writeNew d p content).1.follow true p = .ok (.node place (.file (Text.encode content))) := by
  obtain ⟨-, hw⟩ | ⟨-, ⟨made, fault, -, hw⟩ | ⟨made, fault, -, -, hw⟩ | ⟨made, place, hm, hv, hw⟩⟩ :=
    writeNew_cases d p content
  · rw [hw] at h
    cases h
  · rw [hw] at h
    exact absurd h writeOutcome_ne_true
  · rw [hw] at h
    exact absurd h writeOutcome_ne_true
  · have hgains := Disk.makeDirectoriesUpTo_gains d p.parent p.parent.names.length
    rw [← Disk.makeDirectories, hm] at hgains
    have hnone := Disk.node?_of_vacancy hv
    obtain ⟨-, hother⟩ := Disk.node?_put_fill made (Disk.ne_nil_of_node?_eq_none hnone)
      (Text.encode content)
    refine ⟨made, place, hgains, ?_, ?_, ?_⟩
    · cases hn : d.node? place with
      | none => rfl
      | some node =>
        rw [(Disk.extends_of_makeDirectories hm).keeps _ _ hn] at hnone
        cases hnone
    · rw [hw]
      exact hother
    · rw [hw]
      exact Disk.follow_put_fill hv _

end Outcomes

/-! ## The contract of a writer -/

/-- **What a writer tells is what it has found and done.** It wrote if nothing lay at the path and a
file could be created there, and then the file holds exactly the content. Something was there if
something lies at the path itself. In all other cases it fails and names the path, and unless it wrote
it has made directories at most. -/
structure KeepsContract (d : Disk) (p : Path) (content : String) : Prop where
  wrote_iff : (writeNew d p content).2 = .ok true ↔ ¬ d.Occupied p ∧ d.admits p = true
  holds : (writeNew d p content).2 = .ok true →
    (writeNew d p content).1.read p = .ok (Text.encode content)
  present_iff : (writeNew d p content).2 = .ok false ↔ d.Occupied p
  fails : (writeNew d p content).2 ≠ .ok true → (writeNew d p content).2 ≠ .ok false →
    ∃ message, (writeNew d p content).2 = .error (.output p.toString (some message))
  quiet : (writeNew d p content).2 ≠ .ok true → d.GainsDirectories (writeNew d p content).1

/-- A directory is refused since something else lies in its place, or in that of one above it. -/
lemma exists_occupied_of_makeDirectoriesUpTo {d made : Disk} {p : Path} {above : Nat}
    {fault : DiskFault} (h : d.makeDirectoriesUpTo p above = (made, some fault))
    (hcause : fault.cause = .present) :
    ∃ n, made.Occupied (Path.parent^[n] p) ∧ made.isDirectory (Path.parent^[n] p) = false := by
  have hthere : ∀ {d : Disk} {p : Path} {first : DiskFault}, d.makeDirectory p = .error first →
      d.orDirectory p first = (made, some fault) →
      made.Occupied p ∧ made.isDirectory p = false := by
    intro d p first hmake hor
    rw [Disk.orDirectory, Prod.mk.injEq] at hor
    obtain ⟨rfl, hrefused⟩ := hor
    split at hrefused
    · cases hrefused
    · rename_i hno
      obtain rfl : first = fault := Option.some.inj hrefused
      have hv : d.vacancy p = .error first := by
        unfold Disk.makeDirectory at hmake
        cases hv : d.vacancy p with
        | error fault' => rw [hv] at hmake; cases hmake; rfl
        | ok place => rw [hv] at hmake; cases hmake
      exact ⟨Disk.vacancy_present_iff.mp ⟨first, hv, hcause⟩, by simpa using hno⟩
  have hzero : ∀ {d : Disk} {p : Path}, d.makeDirectoriesUpTo p 0 = (made, some fault) →
      made.Occupied p ∧ made.isDirectory p = false := by
    intro d p h
    unfold Disk.makeDirectoriesUpTo at h
    split at h
    · cases h
    · rename_i first hmake
      split at h
      · rename_i hmissing
        obtain rfl : first = fault := Option.some.inj (Prod.mk.inj h).2
        rw [hcause] at hmissing
        cases hmissing
      · exact hthere hmake h
  induction above generalizing p with
  | zero => exact ⟨0, hzero h⟩
  | succ above ih =>
    unfold Disk.makeDirectoriesUpTo at h
    split at h
    · cases h
    · rename_i first hmake
      split at h
      · exact ⟨0, hthere hmake h⟩
      · split at h
        · rename_i between fault' hup
          rw [Prod.mk.injEq] at h
          obtain ⟨rfl, hfault⟩ := h
          obtain rfl : fault' = fault := Option.some.inj hfault
          obtain ⟨n, hn⟩ := ih hup
          exact ⟨n + 1, by simpa using hn⟩
        · exact ⟨0, hzero h⟩

/-- **What stands in the way** where a directory is refused: at its path or one above it something lies
that is no directory, nor a link to one. -/
theorem IsRefused.exists_occupied {d : Disk} {p : Path} (h : IsRefused d p) :
    ∃ n, (d.makeDirectories p).1.Occupied (Path.parent^[n] p) ∧
      (d.makeDirectories p).1.isDirectory (Path.parent^[n] p) = false := by
  obtain ⟨fault, hfault, hcause⟩ := h
  exact exists_occupied_of_makeDirectoriesUpTo (Prod.ext rfl hfault) hcause

/-- A disk with one file. -/
def Disk.oneFile : Disk where
  entries := [(["f"], .file (Text.encode "x"))]

end ThemeOverride
