import Mathlib.Logic.Function.Iterate
import ThemeOverride.Proofs.Disk.Additions
import ThemeOverride.Proofs.Disk.Rewrite

/-!
# Writers that are interfered with

A writer looks whether something is there, makes the directories above, creates the file on condition
that it is new, and fills it. Between these steps other writers take theirs, and others may add to the
disk and change the bytes in files, as often as they like. However the steps are mixed, a writer
changes no file but its own, and of several writers of one path at most one tells that it wrote.

## Main definitions

* `ThemeOverride.Progress`, `ThemeOverride.Progress.next` — how far a writer has come, and its next
  step.
* `ThemeOverride.Disk.Retains` — what others may make of a disk.
* `ThemeOverride.Interleaved` — the changes of a disk that several writers and others have made, in
  any order.
* `ThemeOverride.History` — the changes that are one writer's own.

## Main results

* `ThemeOverride.writeNew_eq_iterate` — a writer that is left alone comes to what `writeNew` gives.
* `ThemeOverride.Interleaved.history`, `ThemeOverride.Interleaved.stands` — what all the changes so
  far have made of the disk.
* `ThemeOverride.Interleaved.createOnly` — files are only created, whoever interferes.

## Design

Creating a file is one step: that nothing lies there and that the file lies there afterwards cannot be
told apart by others. All other guarantees follow from this and from that nothing is ever taken away.
The changes are kept in order, so that it can be said who created a file before it was written to.
-/

namespace ThemeOverride

/-! ## Writing in steps -/

/-- How far a writer has come. -/
inductive Progress where
  /-- Nothing was done yet. -/
  | begun
  /-- Nothing was found at the path. -/
  | absent
  /-- The directories above are there. -/
  | prepared
  /-- The file was created at a place, and is open. -/
  | created (place : Place)
  | ended (outcome : Except Failure Bool)
  deriving DecidableEq

/-- Writes to an open file from its beginning: bytes that others have put beyond stay. -/
def Disk.overwrite (d : Disk) (place : Place) (content : List UInt8) : Disk :=
  match d.node? place with
  | some (.file old) => d.fill place (content ++ old.drop content.length)
  | _ => d

namespace Progress

/-- The next step of a writer; none where it has come to its end. -/
def next (d : Disk) (p : Path) (content : String) : Progress → Disk × Progress
  | begun => (d, if d.exists p then ended (.ok false) else absent)
  | absent =>
    match d.makeDirectories p.parent with
    | (d, some fault) => (d, ended (writeOutcome p fault))
    | (d, none) => (d, prepared)
  | prepared =>
    match d.createFile p with
    | .error fault => (d, ended (writeOutcome p fault))
    | .ok (d, place) => (d, created place)
  | created place => (d.overwrite place (Text.encode content), ended (.ok true))
  | ended outcome => (d, ended outcome)

/-- Whether a writer has created its file. -/
def hasFile : Progress → Bool
  | created _ | ended (.ok true) => true
  | _ => false

end Progress

/-- **A writer that is left alone** comes to its end in four steps, and to what `writeNew` gives. -/
theorem writeNew_eq_iterate (d : Disk) (p : Path) (content : String) :
    (fun s : Disk × Progress => s.2.next s.1 p content)^[4] (d, .begun) =
      ((writeNew d p content).1, .ended (writeNew d p content).2) := by
  simp only [Function.iterate_succ, Function.iterate_zero, Function.comp_apply, id_eq]
  unfold writeNew
  cases he : d.exists p with
  | true => simp [Progress.next, he]
  | false =>
    rcases hm : d.makeDirectories p.parent with ⟨made, _ | fault⟩
    · unfold createFilled Disk.createFile
      cases hv : made.vacancy p with
      | error fault => simp [Progress.next, he, hm, hv, Disk.createFile, Except.map]
      | ok place =>
        have hne := Disk.ne_nil_of_node?_eq_none (Disk.node?_of_vacancy hv)
        simp [Progress.next, he, hm, hv, Disk.createFile, Except.map, Disk.overwrite, hne]
    · simp [Progress.next, he, hm]

/-! ## What others may do -/

namespace Disk

/-- **What others may make of a disk**: all that lies on it goes on lying there, but the bytes in
files may be others, and anything may be added. -/
structure Retains (before after : Disk) : Prop where
  lies : ∀ place node, before.node? place = some node → after.node? place = some node ∨
    ∃ old new, node = .file old ∧ after.node? place = some (.file new)
  here_eq : after.here = before.here

/-- A change by which nothing but directories is added. -/
def GainsDirectories (before after : Disk) : Prop :=
  ∀ place, after.node? place = before.node? place ∨
    before.node? place = none ∧ after.node? place = some .directory

variable {before between after d made : Disk} {p : Path} {place : Place} {content : List UInt8}

lemma node?_of_followNames_file {enter : Place → List String → Except DiskCause Found}
    {atEnd : Bool} (he : ∀ start names, enter start names = .ok (.node place (.file content)) →
      d.node? place = some (.file content)) (start : Place) (names : List String)
    (hf : d.followNames enter atEnd start names = .ok (.node place (.file content))) :
    d.node? place = some (.file content) := by
  induction names generalizing start with
  | nil => simp [followNames] at hf
  | cons name rest ih =>
    rw [followNames] at hf
    split at hf
    · exact ih _ hf
    · dsimp only at hf
      split at hf
      · split at hf <;> cases hf
      · exact ih _ hf
      · rename_i hn
        split at hf
        · cases hf
          exact hn
        · cases hf
      · split at hf
        · cases hf
        · exact he _ _ hf

/-- The file that a path leads to lies at its place. -/
lemma node?_of_follow_file {atEnd : Bool}
    (h : d.follow atEnd p = .ok (.node place (.file content))) :
    d.node? place = some (.file content) := by
  have hlinks : ∀ (n : Nat) (start : Place) (names : List String),
      d.followLinks atEnd n start names = .ok (.node place (.file content)) →
      d.node? place = some (.file content) := by
    intro n
    induction n with
    | zero => exact node?_of_followNames_file fun _ _ hx => by cases hx
    | succ n ih => exact node?_of_followNames_file ih
  exact hlinks mostLinks _ _ h

lemma Extends.retains (h : before.Extends after) : before.Retains after :=
  ⟨fun place node hn => Or.inl (h.keeps place node hn), h.here_eq⟩

/-- What is retained is a disk with other contents in its files, to which something is added. -/
lemma Retains.exists_rewrite (h : before.Retains after) :
    ∃ change, (before.rewrite change).Extends after := by
  refine ⟨fun place content => match after.node? place with
    | some (.file new) => new
    | _ => content, fun place node hn => ?_, h.here_eq⟩
  rw [node?_rewrite] at hn
  obtain ⟨old, hold, rfl⟩ := Option.map_eq_some_iff.mp hn
  rcases h.lies place old hold with hsame | ⟨bytes, new, rfl, hnew⟩
  · rw [hsame]
    cases old with
    | file bytes => rfl
    | directory => rfl
    | link target => rfl
  · rw [hnew]
    rfl

/-- A path that leads to a file still leads to the file at its place. -/
lemma Retains.follow_file (h : before.Retains after)
    (hf : before.follow true p = .ok (.node place (.file content))) :
    ∃ bytes, after.follow true p = .ok (.node place (.file bytes)) := by
  obtain ⟨change, hchange⟩ := h.exists_rewrite
  refine ⟨change place content, hchange.follow_node ?_⟩
  rw [follow_rewrite, hf]
  rfl

lemma GainsDirectories.refl (d : Disk) : d.GainsDirectories d := fun _ => Or.inl rfl

lemma GainsDirectories.trans (h : before.GainsDirectories between)
    (h' : between.GainsDirectories after) : before.GainsDirectories after := by
  intro place
  rcases h' place with hsame | ⟨hnone, hnew⟩
  · rw [hsame]
    exact h place
  · rcases h place with hsame | ⟨hnone', hnew'⟩
    · exact Or.inr ⟨hsame ▸ hnone, hnew⟩
    · rw [hnew'] at hnone
      cases hnone

lemma makeDirectory_gains (h : d.makeDirectory p = .ok made) : d.GainsDirectories made := by
  obtain ⟨place, hv, rfl⟩ := makeDirectory_eq_ok h
  have hnone := node?_of_vacancy hv
  intro other
  by_cases ho : other = place
  · subst ho
    exact Or.inr ⟨hnone, node?_put d (ne_nil_of_node?_eq_none hnone) _⟩
  · exact Or.inl (node?_put_of_ne d ho _)

lemma makeDirectoriesUpTo_zero_gains (d : Disk) (p : Path) :
    d.GainsDirectories (d.makeDirectoriesUpTo p 0).1 := by
  unfold makeDirectoriesUpTo
  split
  · rename_i made hm
    exact makeDirectory_gains hm
  · split
    · exact .refl d
    · exact .refl d

/-- Making a directory and those above it adds only directories, whether or not it succeeds. -/
lemma makeDirectoriesUpTo_gains (d : Disk) (p : Path) (above : Nat) :
    d.GainsDirectories (d.makeDirectoriesUpTo p above).1 := by
  induction above generalizing p with
  | zero => exact makeDirectoriesUpTo_zero_gains d p
  | succ above ih =>
    have hup := ih p.parent
    unfold makeDirectoriesUpTo
    split
    · rename_i made hm
      exact makeDirectory_gains hm
    · split
      · exact .refl d
      · split
        · rename_i between fault hb
          rwa [hb] at hup
        · rename_i between hb
          rw [hb] at hup
          exact hup.trans (makeDirectoriesUpTo_zero_gains between p)

/-- Writing to an open file leaves it where it is, and all else as it is. -/
lemma overwrite_eq_put {old : List UInt8} (h : d.node? place = some (.file old))
    (content : List UInt8) :
    d.overwrite place content = d.put place (.file (content ++ old.drop content.length)) := by
  simp [overwrite, h, fill]

lemma retains_put_file {old : List UInt8} (h : d.node? place = some (.file old))
    (content : List UInt8) : d.Retains (d.put place (.file content)) := by
  have hne : place ≠ [] := by
    rintro rfl
    simp [node?] at h
  refine ⟨fun other node hn => ?_, rfl⟩
  by_cases ho : other = place
  · subst ho
    rw [h, Option.some.injEq] at hn
    exact Or.inr ⟨old, content, hn.symm, node?_put d hne _⟩
  · exact Or.inl ((node?_put_of_ne d ho _).trans hn)

lemma node?_overwrite_of_ne {other : Place} (h : other ≠ place) :
    (d.overwrite place content).node? other = d.node? other := by
  unfold overwrite
  split
  · exact node?_put_of_ne d h _
  · rfl

lemma node?_overwrite_of_none {other : Place} (h : d.node? other = none) :
    (d.overwrite place content).node? other = none := by
  by_cases ho : other = place
  · subst ho
    simp [overwrite, h]
  · rw [node?_overwrite_of_ne ho, h]

lemma overwrite_retains (d : Disk) (place : Place) (content : List UInt8) :
    d.Retains (d.overwrite place content) := by
  cases hn : d.node? place with
  | none =>
    have hsame : d.overwrite place content = d := by simp [overwrite, hn]
    rw [hsame]
    exact (Extends.refl d).retains
  | some node =>
    cases node with
    | file old =>
      rw [overwrite_eq_put hn]
      exact retains_put_file hn _
    | directory =>
      have hsame : d.overwrite place content = d := by simp [overwrite, hn]
      rw [hsame]
      exact (Extends.refl d).retains
    | link target =>
      have hsame : d.overwrite place content = d := by simp [overwrite, hn]
      rw [hsame]
      exact (Extends.refl d).retains

end Disk

/-! ## One step -/

namespace Progress

variable {d : Disk} {p : Path} {content : String}

/-- **What a step can do.** It adds directories at most and leaves the writer without a file, or with
the one it had; or it creates the file, or it writes to the file. -/
lemma next_cases (d : Disk) (p : Path) (content : String) (s : Progress) :
    (d.GainsDirectories (s.next d p content).1 ∧
      ((s.next d p content).2 = s ∨ s.hasFile = false ∧ (s.next d p content).2.hasFile = false)) ∨
    (s = prepared ∧ ∃ place, d.vacancy p = .ok place ∧
      s.next d p content = (d.put place (.file []), created place)) ∨
    ∃ place, s = created place ∧
      s.next d p content = (d.overwrite place (Text.encode content), ended (.ok true)) := by
  have hrefused : ∀ fault, (ended (writeOutcome p fault)).hasFile = false := by
    intro fault
    unfold writeOutcome
    split <;> rfl
  cases s with
  | begun =>
    refine Or.inl ⟨.refl d, Or.inr ⟨rfl, ?_⟩⟩
    change (if d.exists p then ended (.ok false) else absent).hasFile = false
    split <;> rfl
  | absent =>
    have hgains := Disk.makeDirectoriesUpTo_gains d p.parent p.parent.names.length
    rw [← Disk.makeDirectories] at hgains
    refine Or.inl ?_
    rcases hm : d.makeDirectories p.parent with ⟨made, _ | fault⟩
    · rw [hm] at hgains
      simp only [next, hm]
      exact ⟨hgains, Or.inr ⟨rfl, rfl⟩⟩
    · rw [hm] at hgains
      simp only [next, hm]
      exact ⟨hgains, Or.inr ⟨rfl, hrefused fault⟩⟩
  | prepared =>
    cases hv : d.vacancy p with
    | error fault =>
      simp only [next, Disk.createFile, hv, Except.map]
      exact Or.inl ⟨.refl d, Or.inr ⟨rfl, hrefused fault⟩⟩
    | ok place =>
      refine Or.inr (Or.inl ⟨rfl, place, rfl, ?_⟩)
      simp only [next, Disk.createFile, hv, Except.map]
  | created place => exact Or.inr (Or.inr ⟨place, rfl, rfl⟩)
  | ended outcome => exact Or.inl ⟨.refl d, Or.inl rfl⟩

/-- A step takes nothing away. -/
lemma next_retains (d : Disk) (p : Path) (content : String) (s : Progress) :
    d.Retains (s.next d p content).1 := by
  cases s with
  | begun => exact (Disk.Extends.refl d).retains
  | absent =>
    have hgrows := (Disk.makeDirectoriesUpTo_grows d p.parent p.parent.names.length).keeps
    rw [← Disk.makeDirectories] at hgrows
    rcases hm : d.makeDirectories p.parent with ⟨made, _ | fault⟩
    · rw [hm] at hgrows
      simp only [next, hm]
      exact hgrows.retains
    · rw [hm] at hgrows
      simp only [next, hm]
      exact hgrows.retains
  | prepared =>
    cases hv : d.vacancy p with
    | error fault =>
      simp only [next, Disk.createFile, hv, Except.map]
      exact (Disk.Extends.refl d).retains
    | ok place =>
      simp only [next, Disk.createFile, hv, Except.map]
      exact (Disk.extends_put (Disk.node?_of_vacancy hv) _).retains
  | created place => exact Disk.overwrite_retains d place _
  | ended outcome => exact (Disk.Extends.refl d).retains

end Progress

/-! ## Many writers -/

/-- A disk, and how far each of several writers has come. -/
structure World (ι : Type) where
  disk : Disk
  progress : ι → Progress

/-- A change of the disk, made by one of the writers or by others. -/
structure Change (ι : Type) where
  who : Option ι
  before : Disk
  after : Disk

/-- A file is created at a place where nothing lay. -/
def Change.Creates {ι : Type} (c : Change ι) (place : Place) : Prop :=
  c.before.node? place = none ∧ c.after = c.before.put place (.file [])

/-- A file is written to from its beginning. -/
def Change.Fills {ι : Type} (c : Change ι) (place : Place) (content : List UInt8) : Prop :=
  ∃ old, c.before.node? place = some (.file old) ∧
    c.after = c.before.put place (.file (content ++ old.drop content.length))

/-- By one's own changes nothing but directories is added. -/
def IsQuiet {ι : Type} (i : ι) (changes : List (Change ι)) : Prop :=
  ∀ c ∈ changes, c.who = some i → c.before.GainsDirectories c.after

section Writers

variable {ι : Type} [DecidableEq ι] (files : ι → Path × String)

/-- The next step of one writer. -/
def World.write (i : ι) (w : World ι) : World ι :=
  let s := (w.progress i).next w.disk (files i).1 (files i).2
  ⟨s.1, Function.update w.progress i s.2⟩

/-- **Writers that are interfered with**: what has been changed so far on a disk on which each writer
writes its file, and what it has come to. At any time any of the writers takes its next step, or
others change what they may. -/
inductive Interleaved (start : Disk) : List (Change ι) → World ι → Prop
  | start : Interleaved start [] ⟨start, fun _ => .begun⟩
  | write {changes : List (Change ι)} {w : World ι} (h : Interleaved start changes w) (i : ι) :
      Interleaved start (changes ++ [⟨some i, w.disk, (w.write files i).disk⟩]) (w.write files i)
  | others {changes : List (Change ι)} {w : World ι} {after : Disk}
      (h : Interleaved start changes w) (hk : w.disk.Retains after) :
      Interleaved start (changes ++ [⟨none, w.disk, after⟩]) { w with disk := after }

end Writers

/-! ## Histories -/

/-- **The changes that are one writer's own**, by how far it has come. Without a file it has added
directories at most. Otherwise it has created the file once, and when it tells that it wrote, it has
filled the file once afterwards. -/
inductive History {ι : Type} (i : ι) (content : List UInt8) : List (Change ι) → Progress → Prop
  | idle {changes : List (Change ι)} {s : Progress} (hq : IsQuiet i changes)
      (hs : s.hasFile = false) : History i content changes s
  | created {earlier later : List (Change ι)} {c : Change ι} {place : Place}
      (hc : c.who = some i) (hmade : c.Creates place) (hq : IsQuiet i (earlier ++ later)) :
      History i content (earlier ++ c :: later) (.created place)
  | filled {earlier between later : List (Change ι)} {c c' : Change ι} {place : Place}
      (hc : c.who = some i) (hmade : c.Creates place) (hc' : c'.who = some i)
      (hfill : c'.Fills place content) (hq : IsQuiet i (earlier ++ between ++ later)) :
      History i content (earlier ++ c :: between ++ c' :: later) (.ended (.ok true))

/-- Others leave what lies at a place as it is. -/
def OthersLeave {ι : Type} (i : ι) (place : Place) (changes : List (Change ι)) : Prop :=
  ∀ c ∈ changes, c.who ≠ some i → ∀ node, c.before.node? place = some node →
    c.after.node? place = some node

section Histories

variable {ι : Type} {i : ι} {changes : List (Change ι)} {c : Change ι} {content : List UInt8}
  {s : Progress}

lemma IsQuiet.concat (h : IsQuiet i changes)
    (hc : c.who = some i → c.before.GainsDirectories c.after) : IsQuiet i (changes ++ [c]) := by
  intro other hother hwho
  rcases List.mem_append.mp hother with hold | hnew
  · exact h other hold hwho
  · obtain rfl := List.mem_singleton.mp hnew
    exact hc hwho

/-- A change that adds directories at most, or is not one's own, adds nothing to a history. -/
lemma History.concat (h : History i content changes s)
    (hc : c.who = some i → c.before.GainsDirectories c.after) :
    History i content (changes ++ [c]) s := by
  cases h with
  | idle hq hs => exact .idle (hq.concat hc) hs
  | @created earlier later made place hwho hmade hq =>
    rw [List.append_assoc, List.cons_append]
    refine .created hwho hmade ?_
    rw [← List.append_assoc]
    exact hq.concat hc
  | @filled earlier between later made full place hwho hmade hwho' hfill hq =>
    rw [List.append_assoc, List.cons_append]
    refine .filled hwho hmade hwho' hfill ?_
    rw [← List.append_assoc]
    exact hq.concat hc

/-- A writer without a file has added directories at most. -/
lemma History.isQuiet (h : History i content changes s) (hs : s.hasFile = false) :
    IsQuiet i changes := by
  cases h with
  | idle hq => exact hq
  | created => cases hs
  | filled => cases hs

lemma History.exists_creates {place : Place} (h : History i content changes (.created place)) :
    ∃ c ∈ changes, c.who = some i ∧ c.Creates place := by
  cases h with
  | idle hq hs => cases hs
  | created hc hmade => exact ⟨_, by simp, hc, hmade⟩

/-- What one's next step changes, as it enters the history. -/
lemma History.next {d : Disk} {p : Path} {text : String}
    (h : History i (Text.encode text) changes s)
    (hopen : ∀ place, s = .created place → ∃ old, d.node? place = some (.file old)) :
    History i (Text.encode text) (changes ++ [⟨some i, d, (s.next d p text).1⟩])
      (s.next d p text).2 := by
  obtain ⟨hgains, hsame | ⟨hno, hno'⟩⟩ | ⟨rfl, place, hv, hnext⟩ | ⟨place, rfl, hnext⟩ :=
    s.next_cases d p text
  · rw [hsame]
    exact h.concat fun _ => hgains
  · exact .idle ((h.isQuiet hno).concat fun _ => hgains) hno'
  · rw [hnext]
    refine .created rfl ⟨Disk.node?_of_vacancy hv, rfl⟩ ?_
    rw [List.append_nil]
    exact h.isQuiet rfl
  · rw [hnext]
    obtain ⟨old, hold⟩ := hopen place rfl
    cases h with
    | idle hq hs => cases hs
    | created hc hmade hq =>
      refine .filled hc hmade rfl ⟨old, hold, Disk.overwrite_eq_put hold _⟩ ?_
      rw [List.append_nil]
      exact hq

end Histories

/-! ## What holds at any time -/

/-- A step after which a new file lies at a place is one that has created it there. -/
lemma Progress.eq_of_creates {d : Disk} {p : Path} {content : String} {s : Progress}
    {place : Place} (hnone : d.node? place = none)
    (h : (s.next d p content).1 = d.put place (.file [])) :
    d.vacancy p = .ok place ∧ (s.next d p content).2 = .created place := by
  have hput := Disk.node?_put d (Disk.ne_nil_of_node?_eq_none hnone) (.file [])
  rw [← h] at hput
  obtain ⟨hgains, -⟩ | ⟨rfl, place', hv, hnext⟩ | ⟨place', rfl, hnext⟩ := s.next_cases d p content
  · rcases hgains place with hsame | ⟨-, hnew⟩
    · rw [hput, hnone] at hsame
      cases hsame
    · rw [hput] at hnew
      cases hnew
  · by_cases hp : place = place'
    · subst hp
      exact ⟨hv, by rw [hnext]⟩
    · rw [hnext, Disk.node?_put_of_ne d hp, hnone] at hput
      cases hput
  · rw [hnext, Disk.node?_overwrite_of_none hnone] at hput
    cases hput

namespace Interleaved

variable {ι : Type} [DecidableEq ι] {files : ι → Path × String} {start : Disk}
  {changes : List (Change ι)} {w : World ι} {i j : ι} {place : Place}

/-- **A file that a writer has created is there to stay**, and the path of the writer leads to it. -/
theorem stands (h : Interleaved files start changes w) : ∀ c ∈ changes, ∀ i place,
    c.who = some i → c.Creates place →
      ∃ bytes, w.disk.follow true (files i).1 = .ok (.node place (.file bytes)) ∧
        w.disk.node? place = some (.file bytes) := by
  -- what stood before a change stands after it
  have hkept : ∀ {before after : Disk} {p : Path} {place : Place}, before.Retains after →
      (∃ bytes, before.follow true p = .ok (.node place (.file bytes)) ∧
        before.node? place = some (.file bytes)) →
      ∃ bytes, after.follow true p = .ok (.node place (.file bytes)) ∧
        after.node? place = some (.file bytes) := by
    rintro before after p place hk ⟨bytes, hf, hn⟩
    obtain ⟨bytes', hf'⟩ := hk.follow_file hf
    exact ⟨bytes', hf', Disk.node?_of_follow_file hf'⟩
  induction h with
  | start => intro c hc; cases hc
  | @write changes w h j ih =>
    have hk : w.disk.Retains (w.write files j).disk := Progress.next_retains _ _ _ _
    intro c hc i place hwho hmade
    rcases List.mem_append.mp hc with hold | hnew
    · exact hkept hk (ih c hold i place hwho hmade)
    · obtain rfl := List.mem_singleton.mp hnew
      obtain rfl : j = i := Option.some.inj hwho
      obtain ⟨hnone, hput⟩ := hmade
      obtain ⟨hv, -⟩ := Progress.eq_of_creates hnone hput
      have hfile := Disk.node?_put w.disk (Disk.ne_nil_of_node?_eq_none hnone) (.file [])
      have hdisk : (w.write files j).disk = w.disk.put place (.file []) := hput
      have hfollow : (w.write files j).disk.follow true (files j).1 =
          .ok (.node place (.file [])) := by
        rw [hdisk, Disk.follow_of_vacancy hv (Disk.extends_put hnone _) (by simp [hfile]),
          Disk.endAt, hfile]
      exact ⟨[], hfollow, Disk.node?_of_follow_file hfollow⟩
  | @others changes w after h hk ih =>
    intro c hc i place hwho hmade
    rcases List.mem_append.mp hc with hold | hnew
    · exact hkept hk (ih c hold i place hwho hmade)
    · obtain rfl := List.mem_singleton.mp hnew
      cases hwho

/-- **What one writer has done** at any time. -/
theorem history (h : Interleaved files start changes w) (i : ι) :
    History i (Text.encode (files i).2) changes (w.progress i) := by
  induction h with
  | start => exact .idle (fun c hc => by cases hc) rfl
  | @write changes w h j ih =>
    by_cases hj : i = j
    · subst hj
      have hopen : ∀ place, w.progress i = .created place →
          ∃ old, w.disk.node? place = some (.file old) := by
        intro place hs
        rw [hs] at ih
        obtain ⟨c, hc, hwho, hmade⟩ := ih.exists_creates
        obtain ⟨bytes, -, hn⟩ := h.stands c hc i place hwho hmade
        exact ⟨bytes, hn⟩
      simp only [World.write, Function.update_self]
      exact ih.next hopen
    · simp only [World.write, Function.update_of_ne hj]
      exact ih.concat fun hwho => absurd (Option.some.inj hwho).symm hj
  | @others changes w after h hk ih => exact ih.concat fun hwho => by cases hwho

/-- No file is created twice at one place. -/
lemma creates_unique (h : Interleaved files start changes w) : ∀ c ∈ changes, ∀ c' ∈ changes,
    ∀ i j place, c.who = some i → c'.who = some j → c.Creates place → c'.Creates place →
      i = j := by
  -- the latest change is made on a disk on which all files that were created stand
  have hlast : ∀ {changes : List (Change ι)} {w : World ι} {new : Change ι},
      Interleaved files start changes w → new.before = w.disk →
      (∀ c ∈ changes, ∀ c' ∈ changes, ∀ i j place, c.who = some i → c'.who = some j →
        c.Creates place → c'.Creates place → i = j) →
      ∀ c ∈ changes ++ [new], ∀ c' ∈ changes ++ [new], ∀ i j place, c.who = some i →
        c'.who = some j → c.Creates place → c'.Creates place → i = j := by
    intro changes w new h hbefore ih
    have hapart : ∀ c ∈ changes, ∀ i place, c.who = some i → c.Creates place →
        ¬ new.Creates place := by
      rintro c hc i place hwho hmade ⟨hnone, -⟩
      obtain ⟨bytes, -, hn⟩ := h.stands c hc i place hwho hmade
      rw [hbefore, hn] at hnone
      cases hnone
    intro c hc c' hc' i j place hi hj hmade hmade'
    rcases List.mem_append.mp hc with hold | hnew
    · rcases List.mem_append.mp hc' with hold' | hnew'
      · exact ih c hold c' hold' i j place hi hj hmade hmade'
      · obtain rfl := List.mem_singleton.mp hnew'
        exact absurd hmade' (hapart c hold i place hi hmade)
    · obtain rfl := List.mem_singleton.mp hnew
      rcases List.mem_append.mp hc' with hold' | hnew'
      · exact absurd hmade (hapart c' hold' j place hj hmade')
      · obtain rfl := List.mem_singleton.mp hnew'
        exact Option.some.inj (hi.symm.trans hj)
  induction h with
  | start => intro c hc; cases hc
  | write h j ih => exact hlast h rfl ih
  | others h hk ih => exact hlast h rfl ih

/-- **A writer changes nothing but what it has created**, as long as it has not come to its end and
also then. -/
theorem own_or_same (h : Interleaved files start changes w) :
    ∀ earlier c later, changes = earlier ++ c :: later → ∀ i, c.who = some i → ∀ place node,
      c.before.node? place = some node → c.after.node? place = some node ∨
        ∃ own ∈ earlier, own.who = some i ∧ own.Creates place := by
  induction h with
  | start => intro earlier c later hsplit; simp at hsplit
  | @write changes w h j ih =>
    intro earlier c later hsplit i hwho place node hn
    rcases List.eq_nil_or_concat later with rfl | ⟨later, last, rfl⟩
    · obtain ⟨rfl, rfl⟩ := List.append_singleton_inj.mp hsplit
      obtain rfl : j = i := Option.some.inj hwho
      change ((w.progress j).next w.disk (files j).1 (files j).2).1.node? place = _ ∨ _
      obtain ⟨hgains, -⟩ | ⟨-, place', hv, hnext⟩ | ⟨place', hs, hnext⟩ :=
        (w.progress j).next_cases w.disk (files j).1 (files j).2
      · rcases hgains place with hsame | ⟨hnone, -⟩
        · exact Or.inl (hsame.trans hn)
        · rw [hn] at hnone
          cases hnone
      · rw [hnext]
        exact Or.inl ((Disk.extends_put (Disk.node?_of_vacancy hv) _).keeps _ _ hn)
      · by_cases hp : place = place'
        · subst hp
          have hhistory := h.history j
          rw [hs] at hhistory
          exact Or.inr hhistory.exists_creates
        · rw [hnext, Disk.node?_overwrite_of_ne hp]
          exact Or.inl hn
    · rw [List.concat_eq_append, ← List.cons_append, ← List.append_assoc] at hsplit
      exact ih earlier c later (List.append_singleton_inj.mp hsplit).1 i hwho place node hn
  | @others changes w after h hk ih =>
    intro earlier c later hsplit i hwho place node hn
    rcases List.eq_nil_or_concat later with rfl | ⟨later, last, rfl⟩
    · obtain ⟨-, rfl⟩ := List.append_singleton_inj.mp hsplit
      cases hwho
    · rw [List.concat_eq_append, ← List.cons_append, ← List.append_assoc] at hsplit
      exact ih earlier c later (List.append_singleton_inj.mp hsplit).1 i hwho place node hn

/-- A file that others leave alone is empty until it is filled, and then holds what its writer has
written. -/
lemma node?_of_othersLeave (h : Interleaved files start changes w) : ∀ c ∈ changes, c.who = some i →
    c.Creates place → OthersLeave i place changes →
      w.progress i = .created place ∧ w.disk.node? place = some (.file []) ∨
      w.progress i = .ended (.ok true) ∧
        w.disk.node? place = some (.file (Text.encode (files i).2)) := by
  induction h with
  | start => intro c hc; cases hc
  | @write changes w h j ih =>
    intro c hc hwho hmade hleave
    have hbefore : OthersLeave i place changes := fun c hc => hleave c (List.mem_append_left _ hc)
    by_cases hj : i = j
    · subst hj
      simp only [World.write, Function.update_self]
      rcases List.mem_append.mp hc with hold | hnew
      · rcases ih c hold hwho hmade hbefore with ⟨hs, hn⟩ | ⟨hs, hn⟩
        · have hne : place ≠ [] := Disk.ne_nil_of_node?_eq_none hmade.1
          rw [hs, Progress.next, Disk.overwrite_eq_put hn]
          exact Or.inr ⟨rfl, by simp [hne]⟩
        · rw [hs]
          exact Or.inr ⟨rfl, hn⟩
      · obtain rfl := List.mem_singleton.mp hnew
        obtain ⟨hnone, hput⟩ := hmade
        obtain ⟨-, hs⟩ := Progress.eq_of_creates hnone hput
        refine Or.inl ⟨hs, ?_⟩
        change (World.write files i w).disk.node? place = _
        rw [show (World.write files i w).disk = w.disk.put place (.file []) from hput]
        exact Disk.node?_put w.disk (Disk.ne_nil_of_node?_eq_none hnone) _
    · have hold : c ∈ changes := by
        refine (List.mem_append.mp hc).resolve_right fun hnew => hj ?_
        obtain rfl := List.mem_singleton.mp hnew
        exact (Option.some.inj hwho).symm
      have hsame := hleave ⟨some j, w.disk, (w.write files j).disk⟩ (by simp)
        (fun he => hj (Option.some.inj he).symm)
      simp only [World.write, Function.update_of_ne hj]
      rcases ih c hold hwho hmade hbefore with ⟨hs, hn⟩ | ⟨hs, hn⟩
      · exact Or.inl ⟨hs, hsame _ hn⟩
      · exact Or.inr ⟨hs, hsame _ hn⟩
  | @others changes w after h hk ih =>
    intro c hc hwho hmade hleave
    have hold : c ∈ changes := by
      refine (List.mem_append.mp hc).resolve_right fun hnew => ?_
      obtain rfl := List.mem_singleton.mp hnew
      cases hwho
    have hsame := hleave ⟨none, w.disk, after⟩ (by simp) (fun he => by cases he)
    rcases ih c hold hwho hmade (fun c hc => hleave c (List.mem_append_left _ hc)) with
      ⟨hs, hn⟩ | ⟨hs, hn⟩
    · exact Or.inl ⟨hs, hsame _ hn⟩
    · exact Or.inr ⟨hs, hsame _ hn⟩

/-- **Files are only created, whoever interferes.** At any time, whatever steps the writers and others
have taken:

* a writer has changed what lay at a place only where it had created a file itself before;
* of the writers of one path, one at most tells that it wrote;
* one that does has created a file, to which its path leads, and then filled it with its content, and
  has otherwise added directories at most; where others leave the file alone, it holds the content
  and nothing else;
* one that tells that it did not write has added directories at most.

**Proof sketch.** All that a writer has done is in its history. A file that was created is there to
stay, so that the path of its writer goes on leading there: another writer of the path would find that
something lies there, and two that both created a file created it at one place. -/
theorem createOnly (h : Interleaved files start changes w) :
    (∀ earlier c later, changes = earlier ++ c :: later → ∀ i, c.who = some i → ∀ place node,
      c.before.node? place = some node → c.after.node? place = some node ∨
        ∃ own ∈ earlier, own.who = some i ∧ own.Creates place) ∧
    (∀ i j, (files i).1 = (files j).1 → w.progress i = .ended (.ok true) →
      w.progress j = .ended (.ok true) → i = j) ∧
    (∀ i, w.progress i = .ended (.ok true) → ∃ place earlier c between c' later,
      changes = earlier ++ c :: between ++ c' :: later ∧
      c.who = some i ∧ c.Creates place ∧
      c'.who = some i ∧ c'.Fills place (Text.encode (files i).2) ∧
      IsQuiet i (earlier ++ between ++ later) ∧
      (∃ bytes, w.disk.follow true (files i).1 = .ok (.node place (.file bytes))) ∧
      (OthersLeave i place changes →
        w.disk.read (files i).1 = .ok (Text.encode (files i).2))) ∧
    ∀ i, w.progress i = .ended (.ok false) → IsQuiet i changes := by
  have hmade : ∀ i, w.progress i = .ended (.ok true) → ∃ place earlier c between c' later,
      changes = earlier ++ c :: between ++ c' :: later ∧
      c.who = some i ∧ c.Creates place ∧
      c'.who = some i ∧ c'.Fills place (Text.encode (files i).2) ∧
      IsQuiet i (earlier ++ between ++ later) := by
    intro i hs
    have hhistory := h.history i
    rw [hs] at hhistory
    cases hhistory with
    | idle hq hno => cases hno
    | filled hc hcreates hc' hfills hq => exact ⟨_, _, _, _, _, _, rfl, hc, hcreates, hc', hfills, hq⟩
  refine ⟨h.own_or_same, fun i j hpath hi hj => ?_, fun i hs => ?_, fun i hs => ?_⟩
  · obtain ⟨place, earlier, c, between, c₁, later, hsplit, hc, hcreates, -⟩ := hmade i hi
    obtain ⟨place', earlier', c', between', c₁', later', hsplit', hc', hcreates', -⟩ := hmade j hj
    have hmem : c ∈ changes := by simp [hsplit]
    have hmem' : c' ∈ changes := by simp [hsplit']
    obtain ⟨bytes, hfollow, -⟩ := h.stands c hmem i place hc hcreates
    obtain ⟨bytes', hfollow', -⟩ := h.stands c' hmem' j place' hc' hcreates'
    rw [hpath, hfollow', Except.ok.injEq, Found.node.injEq] at hfollow
    obtain ⟨rfl, -⟩ := hfollow
    exact h.creates_unique c hmem c' hmem' i j place' hc hc' hcreates hcreates'
  · obtain ⟨place, earlier, c, between, c', later, hsplit, hc, hcreates, hc', hfills, hq⟩ := hmade i hs
    have hmem : c ∈ changes := by simp [hsplit]
    obtain ⟨bytes, hfollow, hn⟩ := h.stands c hmem i place hc hcreates
    refine ⟨place, earlier, c, between, c', later, hsplit, hc, hcreates, hc', hfills, hq,
      ⟨bytes, hfollow⟩, fun hleave => ?_⟩
    rcases h.node?_of_othersLeave c hmem hc hcreates hleave with ⟨hs', -⟩ | ⟨-, hcontent⟩
    · rw [hs] at hs'
      cases hs'
    · rw [hn, Option.some.injEq, Node.file.injEq] at hcontent
      rw [Disk.read, hfollow, hcontent]
  · have hhistory := h.history i
    rw [hs] at hhistory
    exact hhistory.isQuiet rfl

/-- Any order of the writers is an order in which they can take their steps. -/
lemma exists_writes (h : Interleaved files start changes w) (order : List ι) :
    ∃ changes', Interleaved files start changes' (order.foldl (fun w i => w.write files i) w) := by
  induction order generalizing changes w with
  | nil => exact ⟨changes, h⟩
  | cons i order ih => exact ih (h.write i)

end Interleaved

/-- Two writers of one path. -/
def twoWriters (i : Bool) : Path × String := (⟨"/", ["f"]⟩, if i then "first" else "second")

/-- Both writers have found nothing at the path, one has created the file, and the other could not. -/
def World.contested : World Bool :=
  [true, false, true, false, true, false].foldl (fun w i => w.write twoWriters i)
    ⟨{}, fun _ => .begun⟩

/-- The writer that has created the file fills it, after others have written to it. What they have
put beyond its content stays. -/
theorem createOnly_contested : ∃ changes w, Interleaved twoWriters {} changes w ∧
    w.progress true = .ended (.ok true) ∧ w.progress false = .ended (.ok false) ∧
    w.disk.read ⟨"/", ["f"]⟩ = .ok (Text.encode "firsty") ∧
    (∃ place, ∃ c ∈ changes, c.who = some true ∧ c.Creates place) ∧ IsQuiet false changes := by
  have hstart : Interleaved twoWriters {} [] ⟨{}, fun _ => .begun⟩ := .start
  obtain ⟨changes, hcontested⟩ := hstart.exists_writes [true, false, true, false, true, false]
  rw [← World.contested] at hcontested
  have hfile : World.contested.disk.node? ["f"] = some (.file []) := by decide +kernel
  have hrun := (hcontested.others (Disk.retains_put_file hfile (Text.encode "busily"))).write true
  obtain ⟨-, -, hwritten, hunwritten⟩ := hrun.createOnly
  obtain ⟨place, earlier, c, between, c', later, hsplit, hc, hcreates, -⟩ :=
    hwritten true (by decide +kernel)
  exact ⟨_, _, hrun, by decide +kernel, by decide +kernel, by decide +kernel,
    ⟨place, c, by simp [hsplit], hc, hcreates⟩, hunwritten false (by decide +kernel)⟩

end ThemeOverride
