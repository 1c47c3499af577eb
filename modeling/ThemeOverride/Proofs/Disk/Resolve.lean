import Mathlib.Data.List.Induction
import Mathlib.Data.List.Nodup
import Mathlib.Data.List.Perm.Subperm
import Mathlib.Tactic.Lemma
import ThemeOverride.Disk.Access

/-!
# Following and resolving

A path is followed through links one after the other, and it is resolved by entering links within
links. Both go the same way: a path that leads to something is resolved to the place where it
lies, and whatever is named from there is found as it is from the path itself.

## Main definitions

* `ThemeOverride.Disk.Leads` — names lead from a place to another through a number of links.
* `ThemeOverride.Disk.IsOpen` — a place whose names lead to it through directories alone.

## Main results

* `ThemeOverride.Disk.resolve?_of_follow` — what a path leads to lies where it is resolved to.
* `ThemeOverride.Disk.exists_open_of_follow` — a path with something below it is resolved to an
  open place, from which the same is found below.
* `ThemeOverride.Disk.exists_resolve?_of_follow` — what is found below a path is found below the
  path that it is resolved to.

## Design

The number of links on a way is what both readings have in common. A link that is met again while
it is being entered would take more links than itself, so that a way with finitely many links
never gets stuck.
-/

namespace ThemeOverride.Disk

variable {d : Disk}

/-! ## Ways -/

/-- The place that a link at a place is entered from. -/
def entrance (target : Path) (directory : Place) : Place :=
  if target.isAbsolute then [] else directory

/-- The names lead from a place to another, through that many links. A name of something that is no
link leads to its place, whether or not it can be entered. -/
inductive Leads (d : Disk) : Place → List String → Nat → Place → Prop
  | nil (place : Place) : Leads d place [] 0 place
  | up {place found : Place} {rest : List String} {n : Nat} (h : Leads d place.dropLast rest n found) :
      Leads d place (".." :: rest) n found
  | plain {place found : Place} {name : String} {rest : List String} {n : Nat} (hup : name ≠ "..")
      (hlink : ∀ target, d.node? (place ++ [name]) ≠ some (.link target))
      (h : Leads d (place ++ [name]) rest n found) : Leads d place (name :: rest) n found
  | link {place within found : Place} {name : String} {rest : List String} {target : Path}
      {n m : Nat} (hup : name ≠ "..") (hlink : d.node? (place ++ [name]) = some (.link target))
      (hin : Leads d (entrance target place) target.names n within)
      (h : Leads d within rest m found) : Leads d place (name :: rest) (n + m + 1) found

namespace Leads

variable {place found found' : Place} {names : List String} {n m : Nat}

/-- Names lead to one place only, and always through as many links. -/
lemma unique (h : d.Leads place names n found) (h' : d.Leads place names m found') :
    n = m ∧ found = found' := by
  induction h generalizing m found' with
  | nil place =>
    cases h'
    exact ⟨rfl, rfl⟩
  | up _ ih =>
    cases h' with
    | up h' => exact ih h'
    | plain hup => exact absurd rfl hup
    | link hup => exact absurd rfl hup
  | plain hup hlink _ ih =>
    cases h' with
    | up => exact absurd rfl hup
    | plain _ _ h' => exact ih h'
    | link _ hlink' => exact absurd hlink' (hlink _)
  | link hup hlink _ _ ihin ih =>
    cases h' with
    | up => exact absurd rfl hup
    | plain _ hlink' => exact absurd hlink (hlink' _)
    | link _ hlink' hin' h' =>
      rw [hlink] at hlink'
      cases hlink'
      obtain ⟨rfl, rfl⟩ := ihin hin'
      obtain ⟨rfl, rfl⟩ := ih h'
      exact ⟨rfl, rfl⟩

lemma append {xs ys : List String} {within : Place} (h : d.Leads place xs n within)
    (h' : d.Leads within ys m found) : d.Leads place (xs ++ ys) (n + m) found := by
  induction h with
  | nil place => simpa using h'
  | up _ ih => exact .up (ih h')
  | plain hup hlink _ ih => exact .plain hup hlink (ih h')
  | link hup hlink hin _ _ ih =>
    have hjoin := Leads.link hup hlink hin (ih h')
    rwa [show ∀ a b c : Nat, a + (b + c) + 1 = a + b + 1 + c from fun a b c => by omega] at hjoin

lemma of_append {xs ys : List String} (h : d.Leads place (xs ++ ys) n found) :
    ∃ k within m, d.Leads place xs k within ∧ d.Leads within ys m found ∧ n = k + m := by
  induction xs generalizing place n with
  | nil => exact ⟨0, place, n, .nil place, h, by omega⟩
  | cons name rest ih =>
    rw [List.cons_append] at h
    cases h with
    | up h =>
      obtain ⟨k, within, m, hk, hm, rfl⟩ := ih h
      exact ⟨k, within, m, .up hk, hm, rfl⟩
    | plain hup hlink h =>
      obtain ⟨k, within, m, hk, hm, rfl⟩ := ih h
      exact ⟨k, within, m, .plain hup hlink hk, hm, rfl⟩
    | link hup hlink hin h =>
      obtain ⟨k, within, m, hk, hm, rfl⟩ := ih h
      exact ⟨_, within, m, .link hup hlink hin hk, hm, by omega⟩

end Leads

/-! ## Resolving a way -/

/-- Links that are being entered, at different places, each of which takes at least so many
links. -/
structure Entering (d : Disk) (entered : List Place) (n : Nat) : Prop where
  nodup : entered.Nodup
  takes : ∀ l ∈ entered, ∃ target k found, d.node? l = some (.link target) ∧
    d.Leads (entrance target l.dropLast) target.names k found ∧ n ≤ k

namespace Entering

variable {entered : List Place} {n k : Nat}

lemma nil : d.Entering [] n := ⟨List.nodup_nil, by simp⟩

lemma mono (h : d.Entering entered n) (hk : k ≤ n) : d.Entering entered k where
  nodup := h.nodup
  takes l hl := by
    obtain ⟨target, m, found, hlink, hleads, hm⟩ := h.takes l hl
    exact ⟨target, m, found, hlink, hleads, Nat.le_trans hk hm⟩

variable {place found : Place} {name : String} {target : Path}

/-- A link that takes fewer links than those that are being entered is none of them. -/
lemma notMem (h : d.Entering entered n) (hlink : d.node? (place ++ [name]) = some (.link target))
    (hin : d.Leads (entrance target place) target.names k found) (hk : k < n) :
    place ++ [name] ∉ entered := by
  intro hmem
  obtain ⟨target', m, found', hlink', hleads, hm⟩ := h.takes _ hmem
  rw [hlink] at hlink'
  cases hlink'
  rw [List.dropLast_concat] at hleads
  obtain ⟨rfl, -⟩ := hin.unique hleads
  omega

lemma cons (h : d.Entering entered n) (hlink : d.node? (place ++ [name]) = some (.link target))
    (hin : d.Leads (entrance target place) target.names k found) (hk : k < n) :
    d.Entering ((place ++ [name]) :: entered) k where
  nodup := List.nodup_cons.mpr ⟨h.notMem hlink hin hk, h.nodup⟩
  takes l hl := by
    rcases List.mem_cons.mp hl with rfl | hl
    · exact ⟨target, k, found, hlink, by rwa [List.dropLast_concat], Nat.le_refl k⟩
    · exact (h.mono (Nat.le_of_lt hk)).takes l hl

/-- There are no more links that are being entered than entries. -/
lemma length_le (h : d.Entering entered n) : entered.length ≤ d.entries.length := by
  have hsub : entered ⊆ d.entries.map (·.1) := by
    intro l hl
    obtain ⟨target, -, -, hlink, -, -⟩ := h.takes l hl
    unfold node? at hlink
    split at hlink
    · cases hlink
    · obtain ⟨before, after, he, -⟩ := List.lookup_eq_some_iff.mp hlink
      rw [he]
      simp
  have hlength := (h.nodup.subperm hsub).length_le
  rwa [List.length_map] at hlength

end Entering

/-- How links are entered on a way of some depth. -/
def wayInto (d : Disk) : Nat → List Place → Place → List String → Way
  | 0 => fun _ place names => .stuck (place ++ names)
  | depth + 1 => d.wayThrough depth

lemma wayThrough_eq (depth : Nat) : d.wayThrough depth = d.wayOfNames (d.wayInto depth) := by
  cases depth <;> rfl

/-- **A way is found.** Where names lead somewhere, their way is clear, however deep it goes.

**Proof sketch.** Induction on the way. A link on it takes fewer links than the way itself, and so
fewer than those that are being entered: it is none of these, and there is depth left, since there
are no more links than entries. -/
lemma wayThrough_of_leads {place found : Place} {names : List String} {n : Nat}
    (h : d.Leads place names n found) {entered : List Place} {depth : Nat}
    (he : d.Entering entered n) (hdepth : d.entries.length ≤ depth + entered.length) :
    d.wayThrough depth entered place names = .clear found := by
  induction h generalizing entered depth with
  | nil place => rw [wayThrough_eq, wayOfNames]
  | up _ ih =>
    rw [wayThrough_eq, wayOfNames, if_pos (by simp), ← wayThrough_eq]
    exact ih he hdepth
  | plain hup hlink _ ih =>
    rw [wayThrough_eq, wayOfNames, if_neg (by simpa using hup), ← wayThrough_eq]
    dsimp only
    split
    · rename_i target hl
      exact absurd hl (hlink target)
    · exact ih he hdepth
  | @link place within found name rest target n m hup hlink hin _ ihin ih =>
    have hk : n < n + m + 1 := by omega
    have hentered := he.cons hlink hin hk
    have hlength := hentered.length_le
    rw [List.length_cons] at hlength
    obtain ⟨depth, rfl⟩ : ∃ k, depth = k + 1 := ⟨depth - 1, by omega⟩
    have hinside : d.wayInto (depth + 1) ((place ++ [name]) :: entered)
        (if target.isAbsolute then [] else place) target.names = .clear within :=
      ihin hentered (by rw [List.length_cons]; omega)
    have hnot : entered.contains (place ++ [name]) = false := by
      simpa using he.notMem hlink hin hk
    rw [wayThrough_eq, wayOfNames, if_neg (by simpa using hup)]
    simp only [hlink, hnot, Bool.false_eq_true, if_false, hinside]
    rw [← wayThrough_eq]
    exact ih (he.mono (by omega)) hdepth

/-- Where the names of a path lead, it is resolved to. -/
lemma resolve?_of_leads {p : Path} {n : Nat} {found : Place}
    (h : d.Leads (d.start p) p.names n found) : d.resolve? p = some ⟨"/", found⟩ := by
  unfold resolve?
  rw [wayThrough_of_leads h .nil (by simp)]

/-! ## Open places -/

/-- A place whose names lead to it through directories alone, to a directory. -/
structure IsOpen (d : Disk) (place : Place) : Prop where
  noUp : ".." ∉ place
  directory : ∀ above, above <+: place → d.node? above = some .directory

namespace IsOpen

variable {place : Place} {name : String}

lemma nil (d : Disk) : d.IsOpen [] :=
  ⟨by simp, fun above h => by simp [List.prefix_nil.mp h, node?]⟩

lemma of_prefix {above : Place} (h : d.IsOpen place) (hp : above <+: place) : d.IsOpen above :=
  ⟨fun hup => h.noUp (hp.subset hup), fun q hq => h.directory q (hq.trans hp)⟩

lemma dropLast (h : d.IsOpen place) : d.IsOpen place.dropLast :=
  h.of_prefix (List.dropLast_prefix place)

lemma concat (h : d.IsOpen place) (hup : name ≠ "..")
    (hn : d.node? (place ++ [name]) = some .directory) : d.IsOpen (place ++ [name]) where
  noUp := by
    simpa using ⟨h.noUp, Ne.symm hup⟩
  directory above ha := by
    rcases List.prefix_concat_iff.mp ha with rfl | ha
    · exact hn
    · exact h.directory above ha

/-- An open place is the root or an entry of the disk. -/
lemma eq_nil_or_mem (h : d.IsOpen place) : place = [] ∨ place ∈ d.entries.map (·.1) := by
  have hn := h.directory place (List.prefix_refl place)
  unfold node? at hn
  split at hn
  · rename_i he
    exact Or.inl (List.isEmpty_iff.mp he)
  · obtain ⟨before, after, he, -⟩ := List.lookup_eq_some_iff.mp hn
    rw [he]
    simp

/-- The names of an open place lead to it without links. -/
lemma leads (h : d.IsOpen place) : d.Leads [] place 0 place := by
  induction place using List.reverseRecOn with
  | nil => exact .nil []
  | append_singleton place name ih =>
    have hdir := h.directory (place ++ [name]) (List.prefix_refl _)
    have hlast : d.Leads place [name] 0 (place ++ [name]) := by
      refine .plain (fun he => h.noUp (by simp [he])) (fun target hl => ?_) (.nil _)
      rw [hdir] at hl
      cases hl
    exact (ih (h.of_prefix (List.prefix_append _ _))).append hlast

/-- Names behind those of an open place are followed from there. -/
lemma followNames_append {enter : Place → List String → Except DiskCause Found} {atEnd : Bool}
    (h : d.IsOpen place) (names : List String) :
    d.followNames enter atEnd [] (place ++ names) = d.followNames enter atEnd place names := by
  induction place using List.reverseRecOn generalizing names with
  | nil => rfl
  | append_singleton place name ih =>
    have hup : (name == "..") = false := by
      simpa using fun he => h.noUp (by simp [he])
    have hdir := h.directory (place ++ [name]) (List.prefix_refl _)
    rw [List.append_assoc, ih (h.of_prefix (List.prefix_append _ _)), List.singleton_append,
      followNames, hup]
    simp only [Bool.false_eq_true, if_false, hdir]

end IsOpen

/-! ## Following a way -/

/-- How links are entered where so many links may be followed. -/
def linkInto (d : Disk) (atEnd : Bool) : Nat → Place → List String → Except DiskCause Found
  | 0 => fun _ _ => .error .linkLoop
  | n + 1 => d.followLinks atEnd n

lemma followLinks_eq (atEnd : Bool) (n : Nat) :
    d.followLinks atEnd n = d.followNames (d.linkInto atEnd n) atEnd := by
  cases n <;> rfl

/-- More links may be allowed on a way that leads somewhere. -/
lemma followLinks_succ {atEnd : Bool} {n : Nat} {place : Place} {names : List String} {r : Found}
    (h : d.followLinks atEnd n place names = .ok r) :
    d.followLinks atEnd (n + 1) place names = .ok r := by
  have hstep : ∀ (enter enter' : Place → List String → Except DiskCause Found),
      (∀ p ns, enter p ns = .ok r → enter' p ns = .ok r) → ∀ (names : List String) (place : Place),
      d.followNames enter atEnd place names = .ok r →
      d.followNames enter' atEnd place names = .ok r := by
    intro enter enter' he names
    induction names with
    | nil => intro place h; simpa [followNames] using h
    | cons name rest ih =>
      intro place h
      rw [followNames] at h ⊢
      split
      · rename_i hup
        rw [if_pos hup] at h
        exact ih _ h
      · rename_i hup
        rw [if_neg hup] at h
        dsimp only at h ⊢
        cases hn : d.node? (place ++ [name]) with
        | none => rw [hn] at h; exact h
        | some node =>
          rw [hn] at h
          cases node with
          | directory => exact ih _ h
          | file content => exact h
          | link target =>
            dsimp only at h ⊢
            split
            · rename_i hend
              rw [if_pos hend] at h
              exact h
            · rename_i hend
              rw [if_neg hend] at h
              exact he _ _ h
  induction n generalizing place names with
  | zero =>
    rw [followLinks_eq] at h ⊢
    exact hstep _ _ (fun _ _ hx => by cases hx) names place h
  | succ n ih =>
    rw [followLinks_eq] at h ⊢
    exact hstep _ _ (fun p ns hx => ih hx) names place h

lemma followLinks_mono {atEnd : Bool} {n m : Nat} (hnm : n ≤ m) {place : Place}
    {names : List String} {r : Found} (h : d.followLinks atEnd n place names = .ok r) :
    d.followLinks atEnd m place names = .ok r := by
  induction hnm with
  | refl => exact h
  | step _ ih => exact followLinks_succ ih

/-- What lies at the end of a way: a directory at an open place, or a file in one. -/
inductive IsEnd (d : Disk) : Place → Node → Prop
  | directory {place : Place} (h : d.IsOpen place) : IsEnd d place .directory
  | file {place : Place} {name : String} {content : List UInt8} (h : d.IsOpen place)
      (hup : name ≠ "..") (hfile : d.node? (place ++ [name]) = some (.file content)) :
      IsEnd d (place ++ [name]) (.file content)

/-- What is known where the first names of a way have been followed: if there are more names, the
place there is open and the others are followed from it with the links that are left. -/
def Onward (d : Disk) (n : Nat) (place : Place) (names : List String) (found : Place)
    (node : Node) : Prop :=
  if names = [] then place = found ∧ d.IsEnd found node
  else d.IsOpen place ∧ d.followLinks true n place names = .ok (.node found node)

/-- Following names is following the first of them and then the others. -/
lemma leads_of_followLinks {n : Nat} {place found : Place} {xs ys : List String} {node : Node}
    (hopen : d.IsOpen place)
    (h : d.followLinks true n place (xs ++ ys) = .ok (.node found node)) :
    ∃ k within, d.Leads place xs k within ∧ k ≤ n ∧ d.Onward (n - k) within ys found node := by
  induction n using Nat.strongRecOn generalizing place xs ys with
  | _ n ihn =>
    induction xs generalizing place with
    | nil =>
      refine ⟨0, place, .nil place, by omega, ?_⟩
      unfold Onward
      split
      · rename_i hys
        subst hys
        rw [List.append_nil, followLinks_eq, followNames, Except.ok.injEq, Found.node.injEq] at h
        obtain ⟨rfl, rfl⟩ := h
        exact ⟨rfl, .directory hopen⟩
      · exact ⟨hopen, h⟩
    | cons name rest ih =>
      rw [List.cons_append, followLinks_eq, followNames, ← followLinks_eq] at h
      split at h
      · rename_i hup
        obtain ⟨k, within, hleads, hk, hon⟩ := ih hopen.dropLast h
        rw [beq_iff_eq] at hup
        subst hup
        exact ⟨k, within, .up hleads, hk, hon⟩
      · rename_i hup
        have hup : name ≠ ".." := by simpa using hup
        dsimp only at h
        cases hn : d.node? (place ++ [name]) with
        | none =>
          rw [hn] at h
          dsimp only at h
          split at h <;> cases h
        | some other =>
          rw [hn] at h
          cases other with
          | directory =>
            obtain ⟨k, within, hleads, hk, hon⟩ := ih (hopen.concat hup hn) h
            exact ⟨k, within, .plain hup (by simp [hn]) hleads, hk, hon⟩
          | file content =>
            dsimp only at h
            split at h
            · rename_i hend
              cases h
              rw [List.isEmpty_iff, List.append_eq_nil_iff] at hend
              obtain ⟨rfl, rfl⟩ := hend
              refine ⟨0, place ++ [name], .plain hup (by simp [hn]) (.nil _), by omega, ?_⟩
              rw [Onward, if_pos rfl]
              exact ⟨rfl, .file hopen hup hn⟩
            · cases h
          | link target =>
            -- the names of the link come first, and take one link less
            simp only [Bool.not_true, Bool.and_false, Bool.false_eq_true, if_false] at h
            cases n with
            | zero => cases h
            | succ n =>
              have henter : d.followLinks true n (entrance target place)
                  ((target.names ++ rest) ++ ys) = .ok (.node found node) := by
                rw [List.append_assoc]
                exact h
              have hstart : d.IsOpen (entrance target place) := by
                unfold entrance
                split
                · exact .nil d
                · exact hopen
              obtain ⟨k, within, hleads, hk, hon⟩ := ihn n (by omega) hstart henter
              obtain ⟨i, mid, j, hin, hrest, rfl⟩ := hleads.of_append
              refine ⟨i + j + 1, within, .link hup hn hin hrest, by omega, ?_⟩
              rwa [show n + 1 - (i + j + 1) = n - (i + j) by omega]

/-- **What a path leads to lies where the path is resolved to**, in an open place if it is a file. -/
theorem resolve?_of_follow {p : Path} {place : Place} {node : Node} (hstart : d.IsOpen (d.start p))
    (h : d.follow true p = .ok (.node place node)) :
    d.resolve? p = some ⟨"/", place⟩ ∧ d.IsEnd place node := by
  unfold follow at h
  rw [← List.append_nil p.names] at h
  obtain ⟨k, within, hleads, -, hon⟩ := leads_of_followLinks hstart h
  rw [Onward, if_pos rfl] at hon
  obtain ⟨rfl, hend⟩ := hon
  exact ⟨resolve?_of_leads hleads, hend⟩

/-- An absolute path is followed from the root. -/
lemma start_of_isAbsolute {p : Path} (hp : p.isAbsolute = true) : d.start p = [] := by
  simp [start, hp]

lemma isOpen_start {p : Path} (hp : p.isAbsolute = true) : d.IsOpen (d.start p) := by
  rw [start_of_isAbsolute hp]
  exact .nil d

/-- **A path with something below it** is resolved to an open place, from which the same is found
below. -/
theorem exists_open_of_follow {root : String} {names below : List String} {place : Place}
    {node : Node} (hstart : d.IsOpen (d.start ⟨root, names⟩)) (hbelow : below ≠ [])
    (h : d.follow true ⟨root, names ++ below⟩ = .ok (.node place node)) :
    ∃ within, d.IsOpen within ∧ d.resolve? ⟨root, names⟩ = some ⟨"/", within⟩ ∧
      d.follow true ⟨"/", within ++ below⟩ = .ok (.node place node) := by
  obtain ⟨k, within, hleads, -, hon⟩ := leads_of_followLinks hstart h
  rw [Onward, if_neg hbelow] at hon
  obtain ⟨hopen, hfollow⟩ := hon
  refine ⟨within, hopen, resolve?_of_leads hleads, ?_⟩
  have hmost := followLinks_mono (Nat.sub_le mostLinks k) hfollow
  unfold follow
  rw [start_of_isAbsolute rfl]
  change d.followNames _ true [] (within ++ below) = _
  rw [hopen.followNames_append]
  exact hmost

/-- A directory lies at an open place. -/
lemma IsOpen.follow {place : Place} (h : d.IsOpen place) :
    d.follow true ⟨"/", place⟩ = .ok (.node place .directory) := by
  unfold Disk.follow
  rw [start_of_isAbsolute rfl]
  change d.followNames _ true [] place = _
  rw [← List.append_nil place, h.followNames_append, followNames, List.append_nil]

lemma IsOpen.nodeAt? {place : Place} (h : d.IsOpen place) :
    d.nodeAt? ⟨"/", place⟩ = some .directory := by
  simp [Disk.nodeAt?, h.follow]

/-- An open place is resolved to itself. -/
lemma IsOpen.resolve? {place : Place} (h : d.IsOpen place) :
    d.resolve? ⟨"/", place⟩ = some ⟨"/", place⟩ :=
  resolve?_of_leads (by rw [start_of_isAbsolute rfl]; exact h.leads)

/-- What lies at the end of a way is found there, and the place is resolved to itself. -/
lemma IsEnd.follow {place : Place} {node : Node} (h : d.IsEnd place node) :
    d.follow true ⟨"/", place⟩ = .ok (.node place node) ∧
      d.resolve? ⟨"/", place⟩ = some ⟨"/", place⟩ := by
  cases h with
  | directory h => exact ⟨h.follow, h.resolve?⟩
  | @file above name content h hup hfile =>
    constructor
    · unfold Disk.follow
      rw [start_of_isAbsolute rfl]
      change d.followNames _ true [] (above ++ [name]) = _
      rw [h.followNames_append, followNames, if_neg (by simpa using hup)]
      simp [hfile]
    · refine resolve?_of_leads (n := 0) ?_
      rw [start_of_isAbsolute rfl]
      exact h.leads.append (.plain hup (by simp [hfile]) (.nil _))

/-- **What is found below a path is found below its resolved path.** -/
theorem exists_resolve?_of_follow {root : String} {names below : List String} {place : Place}
    {node : Node} (hstart : d.IsOpen (d.start ⟨root, names⟩))
    (h : d.follow true ⟨root, names ++ below⟩ = .ok (.node place node)) :
    ∃ within, d.resolve? ⟨root, names⟩ = some ⟨"/", within⟩ ∧
      d.resolve? ⟨"/", within⟩ = some ⟨"/", within⟩ ∧
      d.follow true ⟨"/", within ++ below⟩ = .ok (.node place node) := by
  by_cases hbelow : below = []
  · subst hbelow
    rw [List.append_nil] at h
    obtain ⟨hresolve, hend⟩ := resolve?_of_follow hstart h
    refine ⟨place, hresolve, hend.follow.2, ?_⟩
    rw [List.append_nil]
    exact hend.follow.1
  · obtain ⟨within, hopen, hresolve, hfollow⟩ := exists_open_of_follow hstart hbelow h
    exact ⟨within, hresolve, hopen.resolve?, hfollow⟩

end ThemeOverride.Disk
