import ThemeOverride.Proofs.Disk.Additions
import ThemeOverride.Proofs.Disk.Resolve

/-!
# Making directories

A directory that is there is not made again, and one that could be made is there afterwards. A
directory that is there in the end, at its own place, could be made at any time before.

## Main results

* `ThemeOverride.Disk.makeDirectoriesUpTo_of_isDirectory`,
  `ThemeOverride.Disk.isDirectory_of_makeDirectories` — making a directory does nothing or leaves it
  there.
* `ThemeOverride.Disk.makeDirectoriesUpTo_of_isOpen` — a directory that is there in the end is not
  refused before.
-/

namespace ThemeOverride

namespace Disk

variable {d after : Disk} {p : Path}

/-! ## Directories that are there already -/

lemma followNames_atEnd {enter enter' : Place → List String → Except DiskCause Found}
    (he : ∀ place names found node, enter place names = .ok (.node found node) →
      ∃ found' node', enter' place names = .ok (.node found' node'))
    (names : List String) (place found : Place) (node : Node)
    (h : d.followNames enter true place names = .ok (.node found node)) :
    ∃ found' node', d.followNames enter' false place names = .ok (.node found' node') := by
  induction names generalizing place with
  | nil => exact ⟨place, .directory, rfl⟩
  | cons name rest ih =>
    rw [followNames] at h
    rw [followNames]
    split at h
    · rename_i hup
      rw [if_pos hup]
      exact ih _ h
    · rename_i hup
      rw [if_neg hup]
      dsimp only at h ⊢
      cases hn : d.node? (place ++ [name]) with
      | none => rw [hn] at h; dsimp only at h; split at h <;> cases h
      | some other =>
        rw [hn] at h
        cases other with
        | directory => exact ih _ h
        | file content => exact ⟨found, node, h⟩
        | link target =>
          simp only [Bool.not_true, Bool.and_false, Bool.false_eq_true, if_false] at h
          dsimp only
          split
          · exact ⟨_, _, rfl⟩
          · exact he _ _ _ _ h

/-- What is found through a link at the end is found without going through it. -/
lemma exists_follow_false {found : Place} {node : Node} (h : d.follow true p = .ok (.node found node)) :
    ∃ found' node', d.follow false p = .ok (.node found' node') := by
  have hlinks : ∀ (n : Nat) (place : Place) (names : List String) (found : Place) (node : Node),
      d.followLinks true n place names = .ok (.node found node) →
      ∃ found' node', d.followLinks false n place names = .ok (.node found' node') := by
    intro n
    induction n with
    | zero =>
      exact fun place names found node h =>
        followNames_atEnd (fun _ _ _ _ hx => by cases hx) names place found node h
    | succ n ih =>
      exact fun place names found node h => followNames_atEnd ih names place found node h
  exact hlinks mostLinks _ _ found node h

lemma isDirectory_iff : d.isDirectory p = true ↔
    ∃ place, d.follow true p = .ok (.node place .directory) := by
  unfold isDirectory nodeAt?
  cases d.follow true p with
  | error cause => simp
  | ok found =>
    cases found with
    | vacant place => simp
    | node place node => simp

lemma Extends.isDirectory_mono (h : d.Extends after) (hp : d.isDirectory p = true) :
    after.isDirectory p = true := by
  obtain ⟨place, hfollow⟩ := isDirectory_iff.mp hp
  exact isDirectory_iff.mpr ⟨place, h.follow_node hfollow⟩

/-- A directory that is there is not made again. -/
lemma makeDirectoriesUpTo_of_isDirectory (h : d.isDirectory p = true) (above : Nat) :
    d.makeDirectoriesUpTo p above = (d, none) := by
  obtain ⟨place, hfollow⟩ := isDirectory_iff.mp h
  obtain ⟨found, node, hthere⟩ := exists_follow_false hfollow
  have hmake : d.makeDirectory p = .error (faultAt p .present) := by
    simp [makeDirectory, vacancy, hthere, Except.map]
  cases above with
  | zero => simp [makeDirectoriesUpTo, hmake, faultAt, orDirectory, h]
  | succ above => simp [makeDirectoriesUpTo, hmake, faultAt, orDirectory, h]

lemma isDirectory_of_makeDirectory (h : d.makeDirectory p = .ok after) :
    after.isDirectory p = true := by
  obtain ⟨place, hv, rfl⟩ := makeDirectory_eq_ok h
  have hnone := node?_of_vacancy hv
  have hput := node?_put d (ne_nil_of_node?_eq_none hnone) .directory
  refine isDirectory_iff.mpr ⟨place, ?_⟩
  rw [follow_of_vacancy hv (extends_put hnone _) (by simp [hput]), endAt, hput]

/-- A directory that could be made is there. -/
lemma isDirectory_of_makeDirectories (h : d.makeDirectories p = (after, none)) :
    after.isDirectory p = true := by
  have hor : ∀ {d : Disk} {fault : DiskFault}, d.orDirectory p fault = (after, none) →
      after.isDirectory p = true := by
    intro d fault hor
    rw [orDirectory, Prod.mk.injEq] at hor
    obtain ⟨rfl, hnone⟩ := hor
    by_contra hno
    rw [if_neg hno] at hnone
    cases hnone
  have hzero : ∀ {d : Disk}, d.makeDirectoriesUpTo p 0 = (after, none) →
      after.isDirectory p = true := by
    intro d h
    unfold makeDirectoriesUpTo at h
    split at h
    · rename_i made hm
      cases h
      exact isDirectory_of_makeDirectory hm
    · split at h
      · cases h
      · exact hor h
  unfold makeDirectories at h
  cases hn : p.names.length with
  | zero => rw [hn] at h; exact hzero h
  | succ above =>
    rw [hn] at h
    unfold makeDirectoriesUpTo at h
    split at h
    · rename_i made hm
      cases h
      exact isDirectory_of_makeDirectory hm
    · split at h
      · exact hor h
      · split at h
        · cases h
        · exact hzero h

/-! ## Directories that are there in the end -/

section

variable {d after : Disk} {enter : Place → List String → Except DiskCause Found} {atEnd : Bool}

/-- On the way to an open place of an extension, the way goes on or something is missing. -/
lemma IsOpen.followNames_cases (hd : d.Extends after) {start names : Place} {name : String}
    (hopen : after.IsOpen (start ++ names)) (hstart : d.IsOpen start) :
    d.IsOpen (start ++ names) ∨
      d.followNames enter atEnd start (names ++ [name]) = .error .missing := by
  induction names generalizing start with
  | nil => exact Or.inl (by rwa [List.append_nil])
  | cons next rest ih =>
    have hnext : after.IsOpen (start ++ [next]) :=
      hopen.of_prefix ⟨rest, by simp⟩
    have hup : ¬ (next == "..") = true := by
      simpa using fun he => hnext.noUp (by simp [he])
    rw [List.cons_append, followNames, if_neg hup]
    dsimp only
    cases hn : d.node? (start ++ [next]) with
    | none => exact Or.inr (by simp)
    | some node =>
      have hnode := hd.keeps _ _ hn
      rw [hnext.directory _ List.prefix_rfl] at hnode
      cases hnode
      have hcases := @ih (start ++ [next]) (by simpa using hopen)
        (hstart.concat (by simpa using hup) hn)
      simpa using hcases

lemma IsOpen.mono {place : Place} (h : d.IsOpen place) (hd : d.Extends after) :
    after.IsOpen place :=
  ⟨h.noUp, fun above ha => hd.keeps _ _ (h.directory above ha)⟩

/-- A directory in one that is there is made, if it is missing. -/
lemma exists_makeDirectoriesUpTo {place : Place} {name : String}
    (hopen : after.IsOpen (place ++ [name])) (hd : d.Extends after) (hthere : d.IsOpen place)
    (above : Nat) : ∃ made, d.makeDirectoriesUpTo ⟨"/", place ++ [name]⟩ above = (made, none) ∧
      made.Extends after ∧ made.IsOpen (place ++ [name]) := by
  have hafter := hopen.directory _ List.prefix_rfl
  have hup : name ≠ ".." := fun he => hopen.noUp (by simp [he])
  cases hn : d.node? (place ++ [name]) with
  | some node =>
    have hnode := hd.keeps _ _ hn
    rw [hafter, Option.some.injEq] at hnode
    subst hnode
    have hdirectory : d.isDirectory ⟨"/", place ++ [name]⟩ = true := by
      simp [isDirectory, (hthere.concat hup hn).nodeAt?]
    exact ⟨d, makeDirectoriesUpTo_of_isDirectory hdirectory above, hd, hthere.concat hup hn⟩
  | none =>
    have hvacancy : d.vacancy ⟨"/", place ++ [name]⟩ = .ok (place ++ [name]) := by
      have hfollow : d.follow false ⟨"/", place ++ [name]⟩ = .ok (.vacant (place ++ [name])) := by
        unfold follow
        rw [start_of_isAbsolute rfl, followLinks_eq, hthere.followNames_append, followNames,
          if_neg (by simpa using hup)]
        simp [hn]
      simp [vacancy, hfollow]
    have hmake : d.makeDirectory ⟨"/", place ++ [name]⟩ = .ok (d.put (place ++ [name]) .directory) := by
      simp [makeDirectory, hvacancy, Except.map]
    have hput := @node?_put d (place ++ [name]) (by simp) .directory
    refine ⟨d.put (place ++ [name]) .directory, ?_, ⟨fun other node hother => ?_, hd.here_eq⟩,
      (hthere.mono (extends_put hn _)).concat hup hput⟩
    · cases above with
      | zero => simp [makeDirectoriesUpTo, hmake]
      | succ above => simp [makeDirectoriesUpTo, hmake]
    · by_cases hne : other = place ++ [name]
      · subst hne
        rw [hput] at hother
        rw [← hother, hafter]
      · rw [node?_put_of_ne d hne] at hother
        exact hd.keeps _ _ hother

/-- **A directory that is there in the end is not refused before.**

**Proof sketch.** Induction on the names. Where the directory above is missing, it is made first, and
the disk that this leaves is still one that the last disk extends. -/
lemma makeDirectoriesUpTo_of_isOpen {place : Place} (hopen : after.IsOpen place) {above : Nat}
    (habove : place.length ≤ above) (hd : d.Extends after) :
    ∃ made, d.makeDirectoriesUpTo ⟨"/", place⟩ above = (made, none) ∧ made.Extends after ∧
      made.IsOpen place := by
  induction place using List.reverseRecOn generalizing above with
  | nil =>
    have hroot : d.isDirectory ⟨"/", []⟩ = true := by
      simp [isDirectory, (IsOpen.nil d).nodeAt?]
    exact ⟨d, makeDirectoriesUpTo_of_isDirectory hroot above, hd, .nil d⟩
  | append_singleton place name ih =>
    have hopen' : after.IsOpen place := hopen.of_prefix (List.prefix_append _ _)
    have hcases := @IsOpen.followNames_cases d after (d.linkInto false mostLinks) false hd [] place
      name hopen' (.nil d)
    rcases hcases with hthere | hmissing
    · exact exists_makeDirectoriesUpTo hopen hd hthere above
    · rw [List.length_append, List.length_singleton] at habove
      obtain ⟨above, rfl⟩ : ∃ n, above = n + 1 := ⟨above - 1, by omega⟩
      obtain ⟨made, hmade, hkeeps, hthere⟩ := ih hopen' (Nat.le_of_succ_le_succ habove)
      obtain ⟨made', hmade', hkeeps', hthere'⟩ := exists_makeDirectoriesUpTo hopen hkeeps hthere 0
      have hfollow : d.follow false ⟨"/", place ++ [name]⟩ = .error .missing := by
        unfold follow
        rw [start_of_isAbsolute rfl, followLinks_eq]
        exact hmissing
      have hmake : d.makeDirectory ⟨"/", place ++ [name]⟩ =
          .error (faultAt ⟨"/", place ++ [name]⟩ .missing) := by
        simp [makeDirectory, vacancy, hfollow, Except.map]
      have hparent : (Path.mk "/" (place ++ [name])).parent = ⟨"/", place⟩ := by
        simp [Path.parent]
      refine ⟨made', ?_, hkeeps', hthere'⟩
      rw [makeDirectoriesUpTo, hmake, hparent, hmade]
      simp only [faultAt, bne_self_eq_false, Bool.false_eq_true, if_false]
      exact hmade'

end

end Disk

end ThemeOverride
