import Mathlib.Data.List.Nodup
import Mathlib.Tactic.Lemma
import ThemeOverride.Output.Style

/-!
# Growth of disks

Writing files where there are none only ever adds to a disk: what lies on it stays, and a path
that leads to something goes on leading there. The files that a disk gains are those that the
writer says it wrote.

## Main definitions

* `ThemeOverride.Disk.Extends` — a disk that keeps all that lies on another.
* `ThemeOverride.Disk.Grows` — an extension whose new files are those at the given paths, none of
  which led anywhere before.

## Main results

* `ThemeOverride.Disk.Extends.follow_node` — a path that leads to something still leads there.
* `ThemeOverride.Disk.Grows.append` — growing twice is growing by the files of both.
* `ThemeOverride.writeNew_grows`, `ThemeOverride.createStyle_grows` — the writers of files grow a
  disk by what they report.

## Design

Both relations are about places, since two paths may lead to one place. A path is followed on
two disks at once: where the first finds something, so does the second, because only places at
which nothing lies are ever filled.
-/

namespace ThemeOverride

namespace Disk

/-! ## Extensions -/

/-- A disk that keeps all that lies on another, and the directory that relative paths begin
at. -/
structure Extends (before after : Disk) : Prop where
  keeps : ∀ place node, before.node? place = some node → after.node? place = some node
  here_eq : after.here = before.here

namespace Extends

variable {before between after : Disk}

@[refl]
lemma refl (d : Disk) : d.Extends d := ⟨fun _ _ h => h, rfl⟩

@[trans]
lemma trans (h : before.Extends between) (h' : between.Extends after) : before.Extends after :=
  ⟨fun place node hn => h'.keeps place node (h.keeps place node hn), h'.here_eq.trans h.here_eq⟩

/-- What lies at a place of the extension is new, or lay there before. -/
lemma eq_none_or_eq (h : before.Extends after) {place : Place} {node : Node}
    (hn : after.node? place = some node) :
    before.node? place = none ∨ before.node? place = some node := by
  cases hb : before.node? place with
  | none => exact Or.inl rfl
  | some other =>
    have ho := h.keeps place other hb
    rw [hn] at ho
    exact Or.inr ho.symm

end Extends

/-- A place at which nothing lies is not the root. -/
lemma ne_nil_of_node?_eq_none {d : Disk} {place : Place} (h : d.node? place = none) :
    place ≠ [] := by
  rintro rfl
  simp [node?] at h

/-- Filling a place at which nothing lies keeps everything. -/
lemma extends_put {d : Disk} {place : Place} (h : d.node? place = none) (node : Node) :
    d.Extends (d.put place node) := by
  refine ⟨fun other n hn => ?_, rfl⟩
  have hne : other ≠ place := by
    rintro rfl
    rw [h] at hn
    cases hn
  rw [node?_put_of_ne d hne]
  exact hn

/-! ## Following paths on an extension -/

section Follow

variable {before after : Disk} {enter enter' : Place → List String → Except DiskCause Found}
  {atEnd : Bool} {found : Place} {node : Node} {outcome : Except DiskCause Found}

/-- An outcome that is there to stay while a disk is only added to: nothing was missing on the way
or at its end. -/
def Lasting : Except DiskCause Found → Prop
  | .error .missing | .ok (.vacant _) => False
  | _ => True

lemma Extends.followNames_lasting (h : before.Extends after) (hl : Lasting outcome)
    (he : ∀ p ns, enter p ns = outcome → enter' p ns = outcome) :
    ∀ (names : List String) (place : Place),
      before.followNames enter atEnd place names = outcome →
      after.followNames enter' atEnd place names = outcome := by
  intro names
  induction names with
  | nil => intro place hf; simpa [followNames] using hf
  | cons name rest ih =>
    intro place hf
    rw [followNames] at hf ⊢
    split at hf
    · rename_i hup
      rw [if_pos hup]
      exact ih _ hf
    · rename_i hup
      rw [if_neg hup]
      simp only at hf ⊢
      cases hn : before.node? (place ++ [name]) with
      | none =>
        -- nothing lies there, so that the way ends without finding anything
        rw [hn] at hf
        simp only at hf
        subst hf
        split at hl <;> exact absurd hl id
      | some n =>
        rw [hn] at hf
        rw [h.keeps _ _ hn]
        cases n with
        | directory => exact ih _ hf
        | file content => exact hf
        | link target =>
          simp only at hf ⊢
          split at hf
          · rename_i hend
            rw [if_pos hend]
            exact hf
          · rename_i hend
            rw [if_neg hend]
            exact he _ _ hf

lemma Extends.followLinks_lasting (h : before.Extends after) (hl : Lasting outcome) (n : Nat)
    (place : Place) (names : List String) (hf : before.followLinks atEnd n place names = outcome) :
    after.followLinks atEnd n place names = outcome := by
  induction n generalizing place names with
  | zero =>
    rw [followLinks] at hf ⊢
    exact h.followNames_lasting hl (fun _ _ hx => hx) names place hf
  | succ n ih =>
    rw [followLinks] at hf ⊢
    exact h.followNames_lasting hl (fun p ns hx => ih p ns hx) names place hf

/-- **A path on which nothing is missing leads on an extension where it led before.** -/
theorem Extends.follow_lasting (h : before.Extends after) {p : Path} (hl : Lasting outcome)
    (hf : before.follow atEnd p = outcome) : after.follow atEnd p = outcome := by
  have hs : after.start p = before.start p := by simp [start, h.here_eq]
  rw [follow, hs]
  exact h.followLinks_lasting hl _ _ _ hf

/-- **A path that leads to something still leads there on an extension.** -/
theorem Extends.follow_node (h : before.Extends after) {p : Path}
    (hf : before.follow atEnd p = .ok (.node found node)) :
    after.follow atEnd p = .ok (.node found node) :=
  h.follow_lasting trivial hf

lemma Extends.nodeAt?_eq_some (h : before.Extends after) {p : Path}
    (hn : before.nodeAt? p = some node) : after.nodeAt? p = some node := by
  unfold nodeAt? at hn ⊢
  split at hn
  · rename_i place n hf
    rw [h.follow_node hf]
    exact hn
  · cases hn

/-- A file can be read. -/
lemma exists_read_of_isFile {d : Disk} {p : Path} (h : d.isFile p = true) :
    ∃ content, d.read p = .ok content := by
  unfold isFile nodeAt? at h
  unfold read
  cases hf : d.follow true p with
  | error cause => rw [hf] at h; cases h
  | ok found =>
    rw [hf] at h
    cases found with
    | vacant place => cases h
    | node place node =>
      cases node with
      | file content => exact ⟨content, rfl⟩
      | directory => cases h
      | link target => cases h

/-- What exists on a disk exists on an extension. -/
lemma Extends.exists_mono (h : before.Extends after) {p : Path} (hp : before.exists p = true) :
    after.exists p = true := by
  obtain ⟨n, hn⟩ := Option.isSome_iff_exists.mp hp
  simp [«exists», h.nodeAt?_eq_some hn]

/-- What is a file on a disk is a file on an extension. -/
lemma Extends.isFile_mono (h : before.Extends after) {p : Path} (hp : before.isFile p = true) :
    after.isFile p = true := by
  unfold isFile at hp ⊢
  split at hp
  · rename_i content hn
    rw [h.nodeAt?_eq_some hn]
  · cases hp

end Follow

/-! ## Places that can be filled -/

section Vacant

variable {d after : Disk} {enter enter' : Place → List String → Except DiskCause Found}
  {atEnd : Bool} {found : Place} {content : List UInt8}

/-- One name of a way that ends at a vacant place: it leads up, into a directory or through a
link, or it is the last and nothing lies there. -/
lemma followNames_vacant_cases {place : Place} {name : String} {rest : List String}
    (hf : d.followNames enter atEnd place (name :: rest) = .ok (.vacant found)) :
    (name == "..") = true ∧ d.followNames enter atEnd place.dropLast rest = .ok (.vacant found) ∨
    (name == "..") = false ∧
      (d.node? (place ++ [name]) = none ∧ rest = [] ∧ found = place ++ [name] ∨
        d.node? (place ++ [name]) = some .directory ∧
          d.followNames enter atEnd (place ++ [name]) rest = .ok (.vacant found) ∨
        ∃ target, d.node? (place ++ [name]) = some (.link target) ∧
          (rest.isEmpty && !atEnd) = false ∧
          enter (if target.isAbsolute then [] else place) (target.names ++ rest) =
            .ok (.vacant found)) := by
  rw [followNames] at hf
  split at hf
  · rename_i hup
    exact Or.inl ⟨hup, hf⟩
  · rename_i hup
    refine Or.inr ⟨by simpa using hup, ?_⟩
    simp only at hf
    cases hn : d.node? (place ++ [name]) with
    | none =>
      rw [hn] at hf
      simp only at hf
      split at hf
      · rename_i hr
        cases hf
        exact Or.inl ⟨rfl, List.isEmpty_iff.mp hr, rfl⟩
      · cases hf
    | some n =>
      rw [hn] at hf
      cases n with
      | directory => exact Or.inr (Or.inl ⟨rfl, hf⟩)
      | file content => simp only at hf; split at hf <;> cases hf
      | link target =>
        simp only at hf
        split at hf
        · cases hf
        · rename_i hend
          exact Or.inr (Or.inr ⟨target, rfl, by simpa using hend, hf⟩)

lemma node?_of_followNames_vacant
    (he : ∀ p ns, enter p ns = .ok (.vacant found) → d.node? found = none) :
    ∀ (names : List String) (place : Place),
      d.followNames enter atEnd place names = .ok (.vacant found) → d.node? found = none := by
  intro names
  induction names with
  | nil => intro place hf; simp [followNames] at hf
  | cons name rest ih =>
    intro place hf
    obtain ⟨-, hf⟩ | ⟨-, ⟨hn, -, rfl⟩ | ⟨-, hf⟩ | ⟨target, -, -, hf⟩⟩ :=
      followNames_vacant_cases hf
    · exact ih _ hf
    · exact hn
    · exact ih _ hf
    · exact he _ _ hf

lemma node?_of_followLinks_vacant (n : Nat) (place : Place) (names : List String)
    (hf : d.followLinks atEnd n place names = .ok (.vacant found)) : d.node? found = none := by
  induction n generalizing place names with
  | zero =>
    rw [followLinks] at hf
    exact node?_of_followNames_vacant (fun _ _ hx => by cases hx) names place hf
  | succ n ih =>
    rw [followLinks] at hf
    exact node?_of_followNames_vacant (fun p ns hx => ih p ns hx) names place hf

/-- What a way finds at its last place, where no link lies. -/
def endAt (d : Disk) (found : Place) : Except DiskCause Found :=
  match d.node? found with
  | none => .ok (.vacant found)
  | some node => .ok (.node found node)

/-- A way that ends at a vacant place ends there also on an extension, and also when links at
the end are entered; it finds what lies there now. -/
lemma Extends.followNames_end (h : d.Extends after)
    (hl : ∀ target, after.node? found ≠ some (.link target))
    (he : ∀ p ns, enter p ns = .ok (.vacant found) → enter' p ns = after.endAt found) :
    ∀ (names : List String) (place : Place),
      d.followNames enter atEnd place names = .ok (.vacant found) →
      after.followNames enter' true place names = after.endAt found := by
  intro names
  induction names with
  | nil => intro place hf; simp [followNames] at hf
  | cons name rest ih =>
    intro place hf
    rw [followNames]
    obtain ⟨hup, hf⟩ | ⟨hup, hf⟩ := followNames_vacant_cases hf
    · rw [if_pos hup]
      exact ih _ hf
    · rw [if_neg (by simp [hup])]
      obtain ⟨-, rfl, rfl⟩ | ⟨hn, hf⟩ | ⟨target, hn, -, hf⟩ := hf
      · simp only [endAt]
        cases hn : after.node? (place ++ [name]) with
        | none => simp
        | some node =>
          cases node with
          | directory => simp [followNames]
          | file content => simp
          | link target => exact absurd hn (hl target)
      · simp only [h.keeps _ _ hn]
        exact ih _ hf
      · simp only [h.keeps _ _ hn, Bool.not_true, Bool.and_false, Bool.false_eq_true, if_false]
        exact he _ _ hf

lemma Extends.followLinks_end (h : d.Extends after)
    (hl : ∀ target, after.node? found ≠ some (.link target)) (n : Nat) (place : Place)
    (names : List String) (hf : d.followLinks atEnd n place names = .ok (.vacant found)) :
    after.followLinks true n place names = after.endAt found := by
  induction n generalizing place names with
  | zero =>
    rw [followLinks] at hf ⊢
    exact h.followNames_end hl (fun _ _ hx => by cases hx) names place hf
  | succ n ih =>
    rw [followLinks] at hf ⊢
    exact h.followNames_end hl (fun p ns hx => ih p ns hx) names place hf

end Vacant

/-- The place of a vacancy is one at which nothing lies. -/
lemma node?_of_vacancy {d : Disk} {p : Path} {place : Place} (h : d.vacancy p = .ok place) :
    d.node? place = none := by
  unfold vacancy at h
  split at h
  · cases h
  · cases h
  · rename_i found hf
    cases h
    exact node?_of_followLinks_vacant _ _ _ hf

/-- A path with a vacancy leads, on an extension, to what lies at the place of the vacancy. -/
lemma follow_of_vacancy {d after : Disk} {p : Path} {place : Place} (h : d.vacancy p = .ok place)
    (hd : d.Extends after) (hl : ∀ target, after.node? place ≠ some (.link target)) :
    after.follow true p = after.endAt place := by
  have hs : after.start p = d.start p := by simp [start, hd.here_eq]
  unfold vacancy at h
  split at h
  · cases h
  · cases h
  · rename_i found hf
    cases h
    rw [follow, hs]
    exact hd.followLinks_end hl _ _ _ hf

/-- Nothing exists at a path that has a vacancy. -/
lemma exists_of_vacancy {d : Disk} {p : Path} {place : Place} (h : d.vacancy p = .ok place) :
    d.exists p = false := by
  have hn := node?_of_vacancy h
  have hf := follow_of_vacancy h (.refl d) (by simp [hn])
  simp [«exists», nodeAt?, hf, endAt, hn]

/-! ## Growing by files -/

/-- **Growth by files.** A disk grows by some paths if it keeps all that lies on it, the paths are
different, each led nowhere before and leads to a file afterwards, and every file that is new
lies at the end of one of them. -/
structure Grows (before : Disk) (files : List Path) (after : Disk) : Prop where
  keeps : before.Extends after
  nodup : files.Nodup
  fresh : ∀ p ∈ files, before.exists p = false
  present : ∀ p ∈ files, after.isFile p = true
  listed : ∀ place content, after.node? place = some (.file content) →
    before.node? place = none → ∃ p ∈ files, after.follow true p = .ok (.node place (.file content))

namespace Grows

/-- A disk grows by no files into itself. -/
lemma refl (d : Disk) : d.Grows [] d :=
  { keeps := .refl d
    nodup := List.nodup_nil
    fresh := by simp
    present := by simp
    listed := fun place content hn hd => by rw [hd] at hn; cases hn }

/-- A file that lies at a path exists there. -/
lemma exists_of_isFile {d : Disk} {p : Path} (h : d.isFile p = true) : d.exists p = true := by
  unfold isFile at h
  split at h
  · rename_i content hn
    simp [«exists», hn]
  · cases h

/-- **Growing twice is growing by the files of both.**

**Proof sketch.** A path of the first growth leads to a file in between, and one of the second
leads nowhere there, so that no path is in both. A new file lies on the disk in between, and is of
the first growth, or does not, and is of the second. -/
theorem append {before between after : Disk} {xs ys : List Path} (h : before.Grows xs between)
    (h' : between.Grows ys after) : before.Grows (xs ++ ys) after where
  keeps := h.keeps.trans h'.keeps
  nodup := by
    refine List.nodup_append.mpr ⟨h.nodup, h'.nodup, ?_⟩
    rintro p hx q hy rfl
    have hp := exists_of_isFile (h.present p hx)
    rw [h'.fresh p hy] at hp
    cases hp
  fresh := by
    intro p hp
    rcases List.mem_append.mp hp with hx | hy
    · exact h.fresh p hx
    · cases hb : before.exists p with
      | false => rfl
      | true =>
        have he := h.keeps.exists_mono hb
        rw [h'.fresh p hy] at he
        cases he
  present := by
    intro p hp
    rcases List.mem_append.mp hp with hx | hy
    · exact h'.keeps.isFile_mono (h.present p hx)
    · exact h'.present p hy
  listed := by
    intro place content hn hb
    rcases h'.keeps.eq_none_or_eq hn with hnew | hold
    · obtain ⟨p, hp, hf⟩ := h'.listed place content hn hnew
      exact ⟨p, List.mem_append_right _ hp, hf⟩
    · obtain ⟨p, hp, hf⟩ := h.listed place content hold hb
      exact ⟨p, List.mem_append_left _ hp, h'.keeps.follow_node hf⟩

/-- A change that adds no file grows a disk by what it had grown by. -/
lemma append_nil {before between after : Disk} {xs : List Path} (h : before.Grows xs between)
    (h' : between.Grows [] after) : before.Grows xs after := by
  simpa using h.append h'

end Grows

/-! ## Making directories and files -/

/-- Making a directory adds no file. -/
lemma makeDirectory_grows {d after : Disk} {p : Path} (h : d.makeDirectory p = .ok after) :
    d.Grows [] after := by
  obtain ⟨place, hv, rfl⟩ : ∃ place, d.vacancy p = .ok place ∧ d.put place .directory = after := by
    unfold makeDirectory at h
    cases hv : d.vacancy p with
    | error fault => rw [hv] at h; cases h
    | ok place => rw [hv] at h; cases h; exact ⟨place, rfl, rfl⟩
  have hnone := node?_of_vacancy hv
  refine { Grows.refl d with
    keeps := extends_put hnone _
    present := by simp
    listed := fun other content hn hb => ?_ }
  by_cases ho : other = place
  · subst ho
    rw [node?_put d (ne_nil_of_node?_eq_none hb)] at hn
    cases hn
  · rw [node?_put_of_ne d ho, hb] at hn
    cases hn

/-- Trying to make a directory alone adds no file. -/
lemma makeDirectoriesUpTo_zero_grows (d : Disk) (p : Path) :
    d.Grows [] (d.makeDirectoriesUpTo p 0).1 := by
  unfold makeDirectoriesUpTo
  split
  · rename_i after hm
    exact makeDirectory_grows hm
  · split
    · exact .refl d
    · exact .refl d

/-- Making a directory and those above it adds no file, whether or not it succeeds. -/
lemma makeDirectoriesUpTo_grows (d : Disk) (p : Path) (above : Nat) :
    d.Grows [] (d.makeDirectoriesUpTo p above).1 := by
  induction above generalizing p with
  | zero => exact makeDirectoriesUpTo_zero_grows d p
  | succ above ih =>
    have hup := ih p.parent
    unfold makeDirectoriesUpTo
    split
    · rename_i after hm
      exact makeDirectory_grows hm
    · split
      · exact .refl d
      · split
        · rename_i after fault ha
          rw [ha] at hup
          exact hup
        · rename_i between hb
          rw [hb] at hup
          exact hup.append_nil (makeDirectoriesUpTo_zero_grows between p)

/-- A file that is new and then filled changes nothing else. -/
lemma node?_put_fill (d : Disk) {place : Place} (hne : place ≠ []) (content : List UInt8) :
    ((d.put place (.file [])).fill place content).node? place = some (.file content) ∧
      ∀ other, other ≠ place →
        ((d.put place (.file [])).fill place content).node? other = d.node? other :=
  ⟨by simp [fill, hne], fun other ho => by simp [fill, node?_put_of_ne _ ho]⟩

lemma extends_put_fill {d : Disk} {place : Place} (h : d.node? place = none)
    (content : List UInt8) : d.Extends ((d.put place (.file [])).fill place content) := by
  obtain ⟨-, hother⟩ := node?_put_fill d (ne_nil_of_node?_eq_none h) content
  refine ⟨fun other n hn => ?_, rfl⟩
  rw [hother other (by rintro rfl; rw [h] at hn; cases hn)]
  exact hn

/-- A path with a vacancy leads to the file that is written there. -/
lemma follow_put_fill {d : Disk} {p : Path} {place : Place} (h : d.vacancy p = .ok place)
    (content : List UInt8) : ((d.put place (.file [])).fill place content).follow true p =
      .ok (.node place (.file content)) := by
  have hnone := node?_of_vacancy h
  obtain ⟨hfile, -⟩ := node?_put_fill d (ne_nil_of_node?_eq_none hnone) content
  rw [follow_of_vacancy h (extends_put_fill hnone content) (by simp [hfile]), endAt, hfile]

/-- What a new and then filled file makes of a disk. -/
lemma put_fill_grows {d : Disk} {p : Path} {place : Place} (h : d.vacancy p = .ok place)
    (content : List UInt8) : d.Grows [p] ((d.put place (.file [])).fill place content) := by
  have hnone := node?_of_vacancy h
  obtain ⟨hfile, hother⟩ := node?_put_fill d (ne_nil_of_node?_eq_none hnone) content
  have hkeeps := extends_put_fill hnone content
  have hfollow := follow_put_fill h content
  refine ⟨hkeeps, List.nodup_singleton p, ?_, ?_, ?_⟩
  · intro q hq
    obtain rfl := List.mem_singleton.mp hq
    exact exists_of_vacancy h
  · intro q hq
    obtain rfl := List.mem_singleton.mp hq
    simp [isFile, nodeAt?, hfollow]
  · intro other c hn hb
    by_cases ho : other = place
    · subst ho
      rw [hfile] at hn
      cases hn
      exact ⟨p, List.mem_singleton_self p, hfollow⟩
    · rw [hother other ho, hb] at hn
      cases hn

end Disk

/-! ## Writers -/

/-- The paths at which an outcome tells of a new file. -/
def newAt (p : Path) : Except Failure Bool → List Path
  | .ok true => [p]
  | _ => []

lemma newAt_writeOutcome (p : Path) (fault : DiskFault) : newAt p (writeOutcome p fault) = [] := by
  unfold writeOutcome
  split <;> rfl

/-- **A file is written only where there is none.** Whatever comes of it, the disk grows by the
file if the writer tells of it, and by no file otherwise. -/
theorem writeNew_grows (d : Disk) (p : Path) (content : String) :
    d.Grows (newAt p (writeNew d p content).2) (writeNew d p content).1 := by
  unfold writeNew
  split
  · exact .refl d
  · have hup : d.Grows [] (d.makeDirectories p.parent).1 := Disk.makeDirectoriesUpTo_grows d _ _
    split
    · rename_i after fault ha
      rw [ha] at hup
      rw [newAt_writeOutcome]
      exact hup
    · rename_i between hb
      rw [hb] at hup
      unfold createFilled
      split
      · rw [newAt_writeOutcome]
        exact hup
      · rename_i after place hc
        obtain ⟨hv, rfl⟩ :
            between.vacancy p = .ok place ∧ between.put place (.file []) = after := by
          unfold Disk.createFile at hc
          cases hv : between.vacancy p with
          | error fault => rw [hv] at hc; cases hc
          | ok found => rw [hv] at hc; cases hc; exact ⟨rfl, rfl⟩
        exact hup.append (Disk.put_fill_grows hv _)

/-- Writing a style file grows the disk by the path that it gives, which is that of the style
file. -/
theorem createStyle_grows (d : Disk) (settings : Settings) (directory : Path)
    (resourceName : String) (option : StyleOption) :
    d.Extends (createStyle d settings directory resourceName option).1 ∧
    ∀ created, (createStyle d settings directory resourceName option).2.2 = .ok created →
      d.Grows created.toList (createStyle d settings directory resourceName option).1 ∧
      created.toList.Sublist [stylePath settings directory resourceName] := by
  unfold createStyle
  simp only
  split
  · exact ⟨.refl d, fun created hc => by cases hc⟩
  · rename_i content hr
    have hw := writeNew_grows d (stylePath settings directory resourceName) content
    split
    · rename_i after f hf
      rw [hf] at hw
      exact ⟨hw.keeps, fun created hc => by cases hc⟩
    · rename_i after hf
      rw [hf] at hw
      refine ⟨hw.keeps, fun created hc => ?_⟩
      cases hc
      exact ⟨hw, List.Sublist.refl _⟩
    · rename_i after hf
      rw [hf] at hw
      refine ⟨hw.keeps, fun created hc => ?_⟩
      cases hc
      exact ⟨hw, List.nil_sublist _⟩

end ThemeOverride
