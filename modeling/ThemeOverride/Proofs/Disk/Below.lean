import ThemeOverride.Proofs.Disk.Directories

/-!
# What lies below a directory

Where a path ends somewhere, the paths above it lead to directories. Where a path leads to a
directory, one more name leads to what lies in it under this name. So a file that is written into a
directory touches no other name in it, and a directory that could not be made cannot be made later,
if nothing else is done.

## Main results

* `ThemeOverride.Disk.isDirectory_above` — what has something below it is a directory.
* `ThemeOverride.Disk.follow_child` — a name below a directory leads to what lies at its place.
* `ThemeOverride.Disk.makeDirectories_refused` — a directory that is refused is refused again.
-/

namespace ThemeOverride.Disk

variable {d : Disk} {atEnd : Bool}

section Names

variable {enter enter' : Place → List String → Except DiskCause Found} {found : Found}
  {start place : Place} {names below : List String} {root name : String}

lemma followNames_above (hbelow : below ≠ [])
    (he : ∀ start names, enter start (names ++ below) = .ok found →
      ∃ within, enter' start names = .ok (.node within .directory))
    (h : d.followNames enter atEnd start (names ++ below) = .ok found) :
    ∃ within, d.followNames enter' true start names = .ok (.node within .directory) := by
  induction names generalizing start with
  | nil => exact ⟨start, rfl⟩
  | cons name rest ih =>
    rw [List.cons_append, followNames] at h
    rw [followNames]
    split at h
    · rename_i hup
      rw [if_pos hup]
      exact ih h
    · rename_i hup
      rw [if_neg hup]
      dsimp only at h ⊢
      cases hn : d.node? (start ++ [name]) with
      | none => rw [hn] at h; simp [hbelow] at h
      | some other =>
        rw [hn] at h
        cases other with
        | directory => exact ih h
        | file content => simp [hbelow] at h
        | link target =>
          have hmore : (rest ++ below).isEmpty = false := by simp [hbelow]
          simp only [hmore, Bool.false_and, Bool.false_eq_true, if_false] at h
          simp only [Bool.not_true, Bool.and_false, Bool.false_eq_true, if_false]
          rw [← List.append_assoc] at h
          exact he _ _ h

/-- **What has something below it is a directory**, also if what is below is only a place where
something could lie. -/
lemma isDirectory_above (hbelow : below ≠ [])
    (h : d.follow atEnd ⟨root, names ++ below⟩ = .ok found) :
    d.isDirectory ⟨root, names⟩ = true := by
  have hlinks : ∀ (n : Nat) (start : Place) (names : List String),
      d.followLinks atEnd n start (names ++ below) = .ok found →
      ∃ within, d.followLinks true n start names = .ok (.node within .directory) := by
    intro n
    induction n with
    | zero => exact fun start names h => followNames_above hbelow (fun _ _ hx => by cases hx) h
    | succ n ih => exact fun start names h => followNames_above hbelow ih h
  obtain ⟨within, hwithin⟩ := hlinks mostLinks (d.start ⟨root, names⟩) names h
  exact isDirectory_iff.mpr ⟨within, hwithin⟩

lemma followNames_child (hup : name ≠ "..")
    (hlink : atEnd = true → ∀ target, d.node? (place ++ [name]) ≠ some (.link target))
    (he : ∀ start names, enter start names = .ok (.node place .directory) →
      enter' start (names ++ [name]) = d.endAt (place ++ [name]))
    (h : d.followNames enter true start names = .ok (.node place .directory)) :
    d.followNames enter' atEnd start (names ++ [name]) = d.endAt (place ++ [name]) := by
  induction names generalizing start with
  | nil =>
    rw [followNames, Except.ok.injEq, Found.node.injEq] at h
    obtain ⟨rfl, -⟩ := h
    rw [List.nil_append, followNames, if_neg (by simpa using hup), endAt]
    dsimp only
    cases hn : d.node? (start ++ [name]) with
    | none => rfl
    | some other =>
      cases other with
      | directory => rfl
      | file content => rfl
      | link target =>
        cases atEnd with
        | false => rfl
        | true => exact absurd hn (hlink rfl target)
  | cons first rest ih =>
    rw [followNames] at h
    rw [List.cons_append, followNames]
    split at h
    · rename_i hfirst
      rw [if_pos hfirst]
      exact ih h
    · rename_i hfirst
      rw [if_neg hfirst]
      dsimp only at h ⊢
      cases hn : d.node? (start ++ [first]) with
      | none => rw [hn] at h; dsimp only at h; split at h <;> cases h
      | some other =>
        rw [hn] at h
        cases other with
        | directory => exact ih h
        | file content => dsimp only at h; split at h <;> cases h
        | link target =>
          have hmore : (rest ++ [name]).isEmpty = false := by simp
          simp only [Bool.not_true, Bool.and_false, Bool.false_eq_true, if_false] at h
          simp only [hmore, Bool.false_and, Bool.false_eq_true, if_false]
          rw [← List.append_assoc]
          exact he _ _ h

/-- **A name below a directory** leads to what lies at its place, if that is no link or the link is
not entered. -/
lemma follow_child (hup : name ≠ "..")
    (hlink : atEnd = true → ∀ target, d.node? (place ++ [name]) ≠ some (.link target))
    (h : d.follow true ⟨root, names⟩ = .ok (.node place .directory)) :
    d.follow atEnd ⟨root, names ++ [name]⟩ = d.endAt (place ++ [name]) := by
  have hlinks : ∀ (n : Nat) (start : Place) (names : List String),
      d.followLinks true n start names = .ok (.node place .directory) →
      d.followLinks atEnd n start (names ++ [name]) = d.endAt (place ++ [name]) := by
    intro n
    induction n with
    | zero => exact fun start names h => followNames_child hup hlink (fun _ _ hx => by cases hx) h
    | succ n ih => exact fun start names h => followNames_child hup hlink ih h
  exact hlinks mostLinks (d.start ⟨root, names⟩) names h

lemma follow_false_child (hup : name ≠ "..")
    (h : d.follow true ⟨root, names⟩ = .ok (.node place .directory)) :
    d.follow false ⟨root, names ++ [name]⟩ = d.endAt (place ++ [name]) :=
  follow_child hup (fun hx => by cases hx) h

end Names

/-! ## Directories that are refused -/

section Refused

variable {p : Path} {made : Disk} {fault : DiskFault} {above : Nat}

lemma isDirectory_parent {found : Found} (hp : p.names ≠ [])
    (h : d.follow atEnd p = .ok found) : d.isDirectory p.parent = true := by
  obtain ⟨root, names⟩ := p
  obtain ⟨names, name, rfl⟩ := List.eq_nil_or_concat' names |>.resolve_left hp
  have habove := isDirectory_above (List.cons_ne_nil name []) h
  simpa [Path.parent] using habove

lemma makeDirectoriesUpTo_zero_refused (h : d.makeDirectoriesUpTo p 0 = (made, some fault)) :
    made = d := by
  unfold makeDirectoriesUpTo at h
  split at h
  · cases h
  · split at h
    · cases h
      rfl
    · rw [orDirectory, Prod.mk.injEq] at h
      exact h.1.symm

/-- Where the directory above is refused, so is one below it. -/
lemma makeDirectoriesUpTo_below_refused (hp : p.names ≠ [])
    (h : ∃ fault, d.makeDirectoriesUpTo p.parent above = (d, some fault)) :
    ∃ fault, d.makeDirectoriesUpTo p (above + 1) = (d, some fault) := by
  obtain ⟨fault, habove⟩ := h
  have hnone : ∀ {atEnd found}, d.follow atEnd p ≠ .ok found := fun hfollow => by
    have hdirectory := isDirectory_parent hp hfollow
    rw [makeDirectoriesUpTo_of_isDirectory hdirectory] at habove
    cases habove
  have hno : d.isDirectory p = false := by
    rw [Bool.eq_false_iff]
    intro hdirectory
    obtain ⟨place, hfollow⟩ := isDirectory_iff.mp hdirectory
    exact hnone hfollow
  obtain ⟨fault', hmake⟩ : ∃ fault', d.makeDirectory p = .error fault' := by
    cases hm : d.makeDirectory p with
    | error fault' => exact ⟨fault', rfl⟩
    | ok after =>
      obtain ⟨place, hv, -⟩ := makeDirectory_eq_ok hm
      unfold vacancy at hv
      split at hv
      · cases hv
      · cases hv
      · rename_i hfollow
        exact absurd hfollow hnone
  rw [makeDirectoriesUpTo, hmake]
  dsimp only
  split
  · exact ⟨fault', by simp [orDirectory, hno]⟩
  · rw [habove]
    exact ⟨fault, rfl⟩

lemma makeDirectoriesUpTo_refused (hp : p.names.length = above)
    (h : d.makeDirectoriesUpTo p above = (made, some fault)) :
    ∃ fault', made.makeDirectoriesUpTo p above = (made, some fault') := by
  induction above generalizing d p fault with
  | zero =>
    obtain rfl := makeDirectoriesUpTo_zero_refused h
    exact ⟨fault, h⟩
  | succ above ih =>
    have hne : p.names ≠ [] := fun he => by simp [he] at hp
    have hparent : p.parent.names.length = above := by simp [Path.parent, hp]
    have hwhole := h
    unfold makeDirectoriesUpTo at h
    split at h
    · cases h
    · rename_i first hmake
      split at h
      · rw [orDirectory, Prod.mk.injEq] at h
        obtain ⟨rfl, -⟩ := h
        exact ⟨fault, hwhole⟩
      · rename_i hmissing
        split at h
        · rename_i between fault' habove
          rw [Prod.mk.injEq] at h
          obtain ⟨rfl, -⟩ := h
          exact makeDirectoriesUpTo_below_refused hne (ih hparent habove)
        · rename_i between habove
          obtain rfl := makeDirectoriesUpTo_zero_refused h
          -- the directory above is there now, and the one below it is refused as before
          rw [← hparent] at habove
          have hthere := isDirectory_of_makeDirectories habove
          have hagain := h
          unfold makeDirectoriesUpTo at h ⊢
          split at h
          · cases h
          · rename_i second hmake'
            split
            · rename_i hother
              rw [if_neg (by simpa using hother)] at h
              exact ⟨fault, h⟩
            · rw [makeDirectoriesUpTo_of_isDirectory hthere]
              exact ⟨fault, hagain⟩

/-- **A directory that is refused is refused again.** -/
theorem makeDirectories_refused (h : d.makeDirectories p = (made, some fault)) :
    ∃ fault', made.makeDirectories p = (made, some fault') :=
  makeDirectoriesUpTo_refused rfl h

end Refused

end ThemeOverride.Disk
