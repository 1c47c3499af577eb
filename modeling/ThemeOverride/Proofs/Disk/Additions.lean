import Mathlib.Data.List.Perm.Subperm
import ThemeOverride.Proofs.Disk.Growth
import ThemeOverride.Proofs.Disk.Proper

/-!
# Additions to disks

Writers put what is new behind the entries of a disk: files and directories, but never links. So
what leads through links leads through the same ones afterwards, and what is read at a path that did
not come into being is read as before.

## Main definitions

* `ThemeOverride.Disk.Adds` — a disk with files and directories behind the entries of another.
* `ThemeOverride.Disk.Gains` — a path that leads to something on one disk, but not on another.
* `ThemeOverride.Path.IsPlain` — an absolute path without names that lead up.
* `ThemeOverride.Disk.Sound` — a disk with the names that disks have.

## Main results

* `ThemeOverride.writeNew_adds`, `ThemeOverride.createStyle_adds` — the writers only add.
* `ThemeOverride.Disk.Adds.resolve?_eq` — paths are resolved as before, unless they come to lead in
  a circle.
* `ThemeOverride.Disk.Adds.namesIn_eq` — a directory in which no path came into being is listed as
  before.
-/

namespace ThemeOverride

namespace Disk

open Path (IsName)

/-! ## Adding entries -/

/-- An entry that can be added to a disk: a file or a directory where nothing lies, by a name that
paths spell and that does not lead up. -/
structure IsAddition (d : Disk) (e : Place × Node) : Prop where
  fresh : d.node? e.1 = none
  notLink : ∀ target, e.2 ≠ .link target
  named : ∃ above name, e.1 = above ++ [name] ∧ IsName name ∧ name ≠ ".."

/-- A disk with files and directories behind the entries of another. -/
structure Adds (before after : Disk) : Prop where
  entries : ∃ news, after.entries = before.entries ++ news ∧ ∀ e ∈ news, before.IsAddition e
  here_eq : after.here = before.here

namespace Adds

variable {before between after : Disk}

@[refl]
lemma refl (d : Disk) : d.Adds d := ⟨⟨[], by simp, by simp⟩, rfl⟩

lemma keeps (h : before.Adds after) : before.Extends after := by
  obtain ⟨news, hnews, -⟩ := h.entries
  refine ⟨fun place node hn => ?_, h.here_eq⟩
  unfold node? at hn ⊢
  split at hn
  · rename_i he
    rwa [if_pos he]
  · rename_i he
    rw [if_neg he, hnews, List.lookup_append, hn, Option.some_or]

@[trans]
lemma trans (h : before.Adds between) (h' : between.Adds after) : before.Adds after := by
  obtain ⟨news, hnews, hfresh⟩ := h.entries
  obtain ⟨more, hmore, hfresh'⟩ := h'.entries
  refine ⟨⟨news ++ more, by rw [hmore, hnews, List.append_assoc], fun e he => ?_⟩,
    h'.here_eq.trans h.here_eq⟩
  rcases List.mem_append.mp he with he | he
  · exact hfresh e he
  · obtain ⟨hnone, hlink, hname⟩ := hfresh' e he
    refine ⟨?_, hlink, hname⟩
    cases hb : before.node? e.1 with
    | none => rfl
    | some node => rw [h.keeps.keeps _ _ hb] at hnone; cases hnone

/-- **No links are added.** -/
lemma node?_eq_link_iff (h : before.Adds after) {place : Place} {target : Path} :
    after.node? place = some (.link target) ↔ before.node? place = some (.link target) := by
  refine ⟨fun hn => ?_, fun hn => h.keeps.keeps _ _ hn⟩
  obtain ⟨news, hnews, hfresh⟩ := h.entries
  unfold node? at hn ⊢
  split at hn
  · cases hn
  · rename_i he
    rw [if_neg he]
    rw [hnews, List.lookup_append, Option.or_eq_some_iff] at hn
    rcases hn with hn | ⟨-, hn⟩
    · exact hn
    · obtain ⟨earlier, later, hsplit, -⟩ := List.lookup_eq_some_iff.mp hn
      have hmem : (place, Node.link target) ∈ news := by simp [hsplit]
      exact absurd rfl ((hfresh _ hmem).notLink target)

lemma proper (h : before.Adds after) (hd : before.Proper) : after.Proper where
  here := by rw [h.here_eq]; exact hd.here
  links place target hn := hd.links place target (h.node?_eq_link_iff.mp hn)

end Adds

lemma putEntry_append {place : Place} {entries : List (Place × Node)}
    (h : entries.lookup place = none) (node : Node) (rest : List (Place × Node)) :
    putEntry place node (entries ++ rest) = entries ++ putEntry place node rest := by
  induction entries with
  | nil => rfl
  | cons e entries ih =>
    obtain ⟨p, n⟩ := e
    rw [List.lookup_cons] at h
    cases hp : place == p with
    | true => rw [hp] at h; cases h
    | false =>
      rw [hp] at h
      have hp' : (p == place) = false := by rw [BEq.comm]; exact hp
      rw [List.cons_append, putEntry, hp', ih h]
      rfl

lemma lookup_of_node?_eq_none {d : Disk} {place : Place} (h : d.node? place = none) :
    d.entries.lookup place = none := by
  unfold node? at h
  split at h
  · cases h
  · exact h

/-- Filling a place at which nothing lies adds an entry. -/
lemma entries_put {d : Disk} {place : Place} (h : d.node? place = none) (node : Node) :
    (d.put place node).entries = d.entries ++ [(place, node)] := by
  have hput := putEntry_append (lookup_of_node?_eq_none h) node []
  rwa [List.append_nil] at hput

lemma entries_put_put {d : Disk} {place : Place} (h : d.node? place = none) (node node' : Node) :
    ((d.put place node).put place node').entries = d.entries ++ [(place, node')] := by
  have hput := putEntry_append (lookup_of_node?_eq_none h) node' [(place, node)]
  rw [← entries_put h] at hput
  rw [put, hput]
  simp [putEntry]

/-! ## Vacancies -/

/-- A vacancy has a name of the path or of a link on its way. -/
lemma named_of_followNames_vacant {d : Disk} (hd : d.Proper)
    {enter : Place → List String → Except DiskCause Found} {atEnd : Bool} {found : Place}
    (he : ∀ p ns, (∀ n ∈ ns, IsName n) → enter p ns = .ok (.vacant found) →
      ∃ above name, found = above ++ [name] ∧ IsName name ∧ name ≠ "..") :
    ∀ (names : List String) (place : Place), (∀ n ∈ names, IsName n) →
      d.followNames enter atEnd place names = .ok (.vacant found) →
      ∃ above name, found = above ++ [name] ∧ IsName name ∧ name ≠ ".." := by
  intro names
  induction names with
  | nil => intro place _ hf; simp [followNames] at hf
  | cons name rest ih =>
    intro place hnames hf
    have hrest : ∀ n ∈ rest, IsName n := fun n hn => hnames n (List.mem_cons_of_mem _ hn)
    obtain ⟨-, hf⟩ | ⟨hup, ⟨-, -, rfl⟩ | ⟨-, hf⟩ | ⟨target, hlink, -, hf⟩⟩ :=
      followNames_vacant_cases hf
    · exact ih _ hrest hf
    · exact ⟨place, name, rfl, hnames name List.mem_cons_self, by simpa using hup⟩
    · exact ih _ hrest hf
    · refine he _ _ (fun n hn => ?_) hf
      rcases List.mem_append.mp hn with hn | hn
      · exact (hd.links _ _ hlink).isName n hn
      · exact hrest n hn

lemma named_of_vacancy {d : Disk} (hd : d.Proper) {p : Path} (hp : p.Proper) {place : Place}
    (h : d.vacancy p = .ok place) :
    ∃ above name, place = above ++ [name] ∧ IsName name ∧ name ≠ ".." := by
  have hlinks : ∀ (n : Nat) (start : Place) (names : List String), (∀ n ∈ names, IsName n) →
      d.followLinks false n start names = .ok (.vacant place) →
      ∃ above name, place = above ++ [name] ∧ IsName name ∧ name ≠ ".." := by
    intro n
    induction n with
    | zero =>
      exact fun start names hnames hf =>
        named_of_followNames_vacant hd (fun _ _ _ hx => by cases hx) names start hnames hf
    | succ n ih =>
      exact fun start names hnames hf =>
        named_of_followNames_vacant hd (fun p ns hns hx => ih p ns hns hx) names start hnames hf
  unfold vacancy at h
  split at h
  · cases h
  · cases h
  · rename_i found hf
    cases h
    exact hlinks _ _ _ hp.isName hf

lemma put_adds {d : Disk} (hd : d.Proper) {p : Path} (hp : p.Proper) {place : Place}
    (h : d.vacancy p = .ok place) {node : Node} (hnode : ∀ target, node ≠ .link target) :
    d.Adds (d.put place node) := by
  have hnone := node?_of_vacancy h
  refine ⟨⟨[(place, node)], entries_put hnone node, fun e he => ?_⟩, rfl⟩
  obtain rfl := List.mem_singleton.mp he
  exact ⟨hnone, hnode, named_of_vacancy hd hp h⟩

lemma put_put_adds {d : Disk} (hd : d.Proper) {p : Path} (hp : p.Proper) {place : Place}
    (h : d.vacancy p = .ok place) {node node' : Node} (hnode : ∀ target, node' ≠ .link target) :
    d.Adds ((d.put place node).put place node') := by
  have hnone := node?_of_vacancy h
  refine ⟨⟨[(place, node')], entries_put_put hnone node node', fun e he => ?_⟩, rfl⟩
  obtain rfl := List.mem_singleton.mp he
  exact ⟨hnone, hnode, named_of_vacancy hd hp h⟩

/-! ## Writers -/

lemma makeDirectory_eq_ok {d after : Disk} {p : Path} (h : d.makeDirectory p = .ok after) :
    ∃ place, d.vacancy p = .ok place ∧ d.put place .directory = after := by
  unfold makeDirectory at h
  cases hv : d.vacancy p with
  | error fault => rw [hv] at h; cases h
  | ok place => rw [hv] at h; cases h; exact ⟨place, rfl, rfl⟩

lemma makeDirectory_adds {d after : Disk} (hd : d.Proper) {p : Path} (hp : p.Proper)
    (h : d.makeDirectory p = .ok after) : d.Adds after := by
  obtain ⟨place, hv, rfl⟩ := makeDirectory_eq_ok h
  exact put_adds hd hp hv (by simp)

lemma makeDirectoriesUpTo_zero_adds {d : Disk} (hd : d.Proper) {p : Path} (hp : p.Proper) :
    d.Adds (d.makeDirectoriesUpTo p 0).1 := by
  unfold makeDirectoriesUpTo
  split
  · rename_i after hm
    exact makeDirectory_adds hd hp hm
  · split
    · exact .refl d
    · exact .refl d

lemma makeDirectoriesUpTo_adds {d : Disk} (hd : d.Proper) {p : Path} (hp : p.Proper) (above : Nat) :
    d.Adds (d.makeDirectoriesUpTo p above).1 := by
  induction above generalizing p with
  | zero => exact makeDirectoriesUpTo_zero_adds hd hp
  | succ above ih =>
    have hup := ih hp.parent
    unfold makeDirectoriesUpTo
    split
    · rename_i after hm
      exact makeDirectory_adds hd hp hm
    · split
      · exact .refl d
      · split
        · rename_i after fault ha
          rwa [ha] at hup
        · rename_i between hb
          rw [hb] at hup
          exact hup.trans (makeDirectoriesUpTo_zero_adds (hup.proper hd) hp)

end Disk

/-- **Writing a file only adds to a disk**, whether or not it succeeds. -/
theorem writeNew_adds {d : Disk} (hd : d.Proper) {p : Path} (hp : p.Proper) (content : String) :
    d.Adds (writeNew d p content).1 := by
  unfold writeNew
  split
  · exact .refl d
  · have hup : d.Adds (d.makeDirectories p.parent).1 :=
      Disk.makeDirectoriesUpTo_adds hd hp.parent _
    split
    · rename_i after fault ha
      rwa [ha] at hup
    · rename_i between hb
      rw [hb] at hup
      unfold createFilled
      split
      · exact hup
      · rename_i after place hc
        unfold Disk.createFile at hc
        cases hv : between.vacancy p with
        | error fault => rw [hv] at hc; cases hc
        | ok found =>
          rw [hv] at hc
          cases hc
          exact hup.trans (Disk.put_put_adds (hup.proper hd) hp hv (by simp))

theorem createStyle_adds {d : Disk} (hd : d.Proper) (settings : Settings) {directory : Path}
    (hp : directory.Proper) (resourceName : String) (option : StyleOption) :
    d.Adds (createStyle d settings directory resourceName option).1 := by
  unfold createStyle
  dsimp only
  split
  · exact .refl d
  · rename_i content _
    have hw := writeNew_adds hd (hp.child (resourceName ++ settings.styleExtension)) content
    change d.Adds (writeNew d (stylePath settings directory resourceName) content).1 at hw
    split
    all_goals
      rename_i hf
      rwa [hf] at hw

namespace Disk

/-! ## Listing directories -/

/-- **A directory is listed as before** if nothing lies in it that lay there not before. -/
theorem Adds.namesIn_eq {before after : Disk} (h : before.Adds after) {place : Place}
    (hnone : ∀ name, Path.IsName name → name ≠ ".." → before.node? (place ++ [name]) = none →
      after.node? (place ++ [name]) = none) : after.namesIn place = before.namesIn place := by
  obtain ⟨news, hnews, hfresh⟩ := h.entries
  suffices hnot : news.filterMap (fun e => nameIn? place e.1) = [] by
    rw [namesIn, hnews, List.filterMap_append, hnot, List.append_nil, namesIn]
  rw [List.filterMap_eq_nil_iff]
  intro e he
  obtain ⟨hnode, -, above, name, hplace, hname, hup⟩ := hfresh e he
  by_contra hin
  obtain ⟨hlength, hprefix⟩ : e.1.length = place.length + 1 ∧ place <+: e.1 := by
    unfold nameIn? at hin
    split at hin
    · simp_all
    · exact absurd rfl hin
  obtain rfl : place = above := by
    rw [hplace, List.length_append, List.length_singleton] at hlength
    rw [hplace] at hprefix
    rcases List.prefix_concat_iff.mp hprefix with hp | hp
    · simp [hp] at hlength
    · exact hp.eq_of_length (by omega)
  -- the entry lies in the directory, although it is new
  rw [hplace] at hnode
  have hlater := hnone name hname hup hnode
  have hlookup := lookup_of_node?_eq_none hlater
  rw [hnews, List.lookup_append, Option.or_eq_none_iff] at hlookup
  have hne := List.lookup_eq_none_iff.mp hlookup.2 e he
  simp [hplace] at hne

/-- A disk all names of which are names that paths spell, and none of which leads up. -/
structure Sound (d : Disk) : Prop extends Disk.Proper d where
  entries : ∀ e ∈ d.entries, ∀ n ∈ e.1, Path.IsName n ∧ n ≠ ".."
  noUp : ".." ∉ d.here

/-- The names in a directory are names. -/
lemma Sound.isName_of_list {d : Disk} (hd : d.Sound) {p : Path} {names : List String}
    (h : d.list p = .ok names) : ∀ n ∈ names, Path.IsName n ∧ n ≠ ".." := by
  intro n hn
  unfold list at h
  split at h
  · cases h
  · rename_i place _
    cases h
    obtain ⟨e, he, hname⟩ := List.mem_filterMap.mp hn
    unfold nameIn? at hname
    split at hname
    · exact hd.entries e he n (List.mem_of_getLast? hname)
    · cases hname
  · cases h
  · cases h

/-! ## What is read as before -/

/-- A path that leads to something on one disk, but not on another. -/
def Gains (before after : Disk) (p : Path) : Prop :=
  before.exists p = false ∧ after.exists p = true

instance (before after : Disk) (p : Path) : Decidable (Gains before after p) :=
  inferInstanceAs (Decidable (_ ∧ _))

section Reading

variable {before after : Disk} {p : Path}

lemma Extends.nodeAt?_eq (h : before.Extends after) (hp : ¬ Gains before after p) :
    after.nodeAt? p = before.nodeAt? p := by
  cases hb : before.nodeAt? p with
  | some node => exact h.nodeAt?_eq_some hb
  | none =>
    cases ha : after.nodeAt? p with
    | none => rfl
    | some node => exact absurd ⟨by simp [«exists», hb], by simp [«exists», ha]⟩ hp

lemma Extends.isFile_eq (h : before.Extends after) (hp : ¬ Gains before after p) :
    after.isFile p = before.isFile p := by
  unfold isFile
  rw [h.nodeAt?_eq hp]

lemma Extends.isDirectory_eq (h : before.Extends after) (hp : ¬ Gains before after p) :
    after.isDirectory p = before.isDirectory p := by
  unfold isDirectory
  rw [h.nodeAt?_eq hp]

/-- What can be read goes on being read. -/
lemma Extends.read_eq_ok (h : before.Extends after) {content : List UInt8}
    (hr : before.read p = .ok content) : after.read p = .ok content := by
  unfold read at hr ⊢
  split at hr
  · cases hr
  · rename_i place held hf
    rw [h.follow_node hf]
    exact hr
  · cases hr
  · cases hr

end Reading

/-! ## Resolving paths -/

/-- The link at a place. -/
def linkAt? (d : Disk) (place : Place) : Option Path :=
  match d.node? place with
  | some (.link target) => some target
  | _ => none

lemma linkAt?_eq_some {d : Disk} {place : Place} {target : Path} :
    d.linkAt? place = some target ↔ d.node? place = some (.link target) := by
  unfold linkAt?
  cases d.node? place with
  | none => simp
  | some node => cases node <;> simp

lemma Adds.linkAt?_eq {before after : Disk} (h : before.Adds after) (place : Place) :
    after.linkAt? place = before.linkAt? place := by
  refine Option.ext fun target => ?_
  rw [linkAt?_eq_some, linkAt?_eq_some]
  exact h.node?_eq_link_iff

section Ways

variable {d d' : Disk} {enter enter' : List Place → Place → List String → Way}
  {entered : List Place}

lemma wayOfNames_cons (place : Place) (name : String) (rest : List String) :
    d.wayOfNames enter entered place (name :: rest) =
      if name == ".." then d.wayOfNames enter entered place.dropLast rest
      else
        match d.linkAt? (place ++ [name]) with
        | some target =>
          if entered.contains (place ++ [name]) then .stuck (place ++ [name] ++ rest)
          else
            match enter ((place ++ [name]) :: entered) (if target.isAbsolute then [] else place)
              target.names with
            | .clear p => d.wayOfNames enter entered p rest
            | .stuck names => .stuck (names ++ rest)
        | none => d.wayOfNames enter entered (place ++ [name]) rest := by
  rw [wayOfNames]
  unfold linkAt?
  dsimp only
  cases d.node? (place ++ [name]) with
  | none => rfl
  | some node => cases node <;> rfl

/-- A way depends on the links alone, and on how those are entered that are not being entered. -/
lemma wayOfNames_congr (hlink : ∀ place, d'.linkAt? place = d.linkAt? place)
    (he : ∀ next target place, d.linkAt? next = some target → next ∉ entered →
      enter' (next :: entered) place target.names = enter (next :: entered) place target.names)
    (place : Place) (names : List String) :
    d'.wayOfNames enter' entered place names = d.wayOfNames enter entered place names := by
  induction names generalizing place with
  | nil => rfl
  | cons name rest ih =>
    rw [wayOfNames_cons, wayOfNames_cons, hlink, ih]
    split
    · rfl
    · split
      · rename_i target htarget
        split
        · rfl
        · rename_i hnot
          rw [he _ _ _ htarget (by simpa using hnot)]
          split
          · exact ih _
          · rfl
      · exact ih _

/-- Different links of a disk. -/
structure Links (d : Disk) (entered : List Place) : Prop where
  nodup : entered.Nodup
  isLink : ∀ l ∈ entered, (d.linkAt? l).isSome = true

lemma Links.length_le (h : d.Links entered) : entered.length ≤ d.entries.length := by
  have hsub : entered ⊆ d.entries.map (·.1) := by
    intro l hl
    obtain ⟨target, htarget⟩ := Option.isSome_iff_exists.mp (h.isLink l hl)
    rw [linkAt?_eq_some] at htarget
    unfold node? at htarget
    split at htarget
    · cases htarget
    · obtain ⟨earlier, later, he, -⟩ := List.lookup_eq_some_iff.mp htarget
      rw [he]
      simp
  have hlength := (h.nodup.subperm hsub).length_le
  rwa [List.length_map] at hlength

lemma Links.cons (h : d.Links entered) {next : Place} {target : Path}
    (hnext : d.linkAt? next = some target) (hnew : next ∉ entered) : d.Links (next :: entered) :=
  ⟨List.nodup_cons.mpr ⟨hnew, h.nodup⟩,
    List.forall_mem_cons.mpr ⟨by rw [hnext]; rfl, h.isLink⟩⟩

/-- **Ways are found at the depth of the entries**: going deeper changes nothing.

**Proof sketch.** Each link that is entered is another one, and at that depth no other is left. -/
lemma wayThrough_succ {depth : Nat} (h : d.Links entered)
    (hdepth : d.entries.length ≤ depth + entered.length) (place : Place) (names : List String) :
    d.wayThrough (depth + 1) entered place names = d.wayThrough depth entered place names := by
  induction depth generalizing entered place names with
  | zero =>
    refine wayOfNames_congr (fun _ => rfl) (fun next target _ hnext hnew => ?_) place names
    have hlength := (h.cons hnext hnew).length_le
    rw [List.length_cons] at hlength
    omega
  | succ depth ih =>
    refine wayOfNames_congr (fun _ => rfl) (fun next target _ hnext hnew => ?_) place names
    exact ih (h.cons hnext hnew) (by rw [List.length_cons]; omega) _ _

lemma wayThrough_of_le {depth : Nat} (hdepth : d.entries.length ≤ depth) (place : Place)
    (names : List String) :
    d.wayThrough depth [] place names = d.wayThrough d.entries.length [] place names := by
  induction hdepth with
  | refl => rfl
  | step hle ih =>
    have hlinks : d.Links [] := ⟨List.nodup_nil, by simp⟩
    rw [wayThrough_succ hlinks (by simpa using hle), ih]

lemma wayThrough_congr (hlink : ∀ place, d'.linkAt? place = d.linkAt? place) (depth : Nat)
    (place : Place) (names : List String) :
    d'.wayThrough depth entered place names = d.wayThrough depth entered place names := by
  induction depth generalizing entered place names with
  | zero => exact wayOfNames_congr hlink (fun _ _ _ _ _ => rfl) place names
  | succ depth ih => exact wayOfNames_congr hlink (fun _ _ _ _ _ => ih _ _) place names

end Ways

end Disk

/-- An absolute path without names that lead up. -/
structure Path.IsPlain (p : Path) : Prop where
  isAbsolute : p.isAbsolute = true
  noUp : ".." ∉ p.names

namespace Disk

lemma notMem_plainNames (names : List String) : ".." ∉ plainNames names := by
  suffices h : ∀ (names place : List String), ".." ∉ place → ".." ∉ names.foldl
      (fun place name => if name == ".." then place.dropLast else place ++ [name]) place from
    h names [] (by simp)
  intro names
  induction names with
  | nil => intro place hp; exact hp
  | cons name rest ih =>
    intro place hp
    refine ih _ ?_
    dsimp only
    split
    · exact fun hn => hp (List.dropLast_subset _ hn)
    · rename_i hup
      simpa [hp] using Ne.symm (by simpa using hup : name ≠ "..")

/-- A way leads to a place without names that lead up. -/
lemma notMem_of_wayThrough {d : Disk} {depth : Nat} {entered : List Place} {place found : Place}
    {names : List String} (hp : ".." ∉ place)
    (h : d.wayThrough depth entered place names = .clear found) : ".." ∉ found := by
  have hstep : ∀ (enter : List Place → Place → List String → Way) (entered : List Place)
      (found : Place), (∀ entered place names found, ".." ∉ place →
        enter entered place names = .clear found → ".." ∉ found) →
      ∀ names place, ".." ∉ place → d.wayOfNames enter entered place names = .clear found →
        ".." ∉ found := by
    intro enter entered found he names
    induction names with
    | nil =>
      intro place hp h
      rw [wayOfNames, Way.clear.injEq] at h
      exact h ▸ hp
    | cons name rest ih =>
      intro place hp h
      rw [wayOfNames_cons] at h
      split at h
      · exact ih _ (fun hn => hp (List.dropLast_subset _ hn)) h
      · rename_i hup
        split at h
        · split at h
          · cases h
          · split at h
            · rename_i target _ _ within hin
              exact ih _ (he _ _ _ _ (by split <;> simp [hp]) hin) h
            · cases h
        · refine ih _ ?_ h
          simpa [hp] using Ne.symm (by simpa using hup : name ≠ "..")
  induction depth generalizing entered place names found with
  | zero => exact hstep _ entered found (fun _ _ _ _ _ hx => by cases hx) names place hp h
  | succ depth ih =>
    exact hstep _ entered found (fun _ _ _ _ hp hx => ih hp hx) names place hp h

/-- A resolved path is plain. -/
lemma isPlain_of_resolve? {d : Disk} {p q : Path} (hhere : ".." ∉ d.here)
    (h : d.resolve? p = some q) : q.IsPlain := by
  have hstart : ".." ∉ d.start p := by
    unfold start
    split
    · simp
    · exact hhere
  unfold resolve? at h
  split at h
  · rename_i place hway
    cases h
    exact ⟨rfl, notMem_of_wayThrough hstart hway⟩
  · dsimp only at h
    split at h
    · cases h
    · cases h
      exact ⟨rfl, notMem_plainNames _⟩

/-- **Paths are resolved as before**, unless a plain path comes to lead in a circle.

**Proof sketch.** Which way a path leads depends on the links alone, and no link is added. Only a
path that is stuck between links is also followed. -/
theorem Adds.resolve?_eq {before after : Disk} (h : before.Adds after)
    (hcircle : ∀ q : Path, q.IsPlain → after.follow true q = .error .linkLoop →
      before.follow true q = .error .linkLoop) (p : Path) : after.resolve? p = before.resolve? p := by
  have hlength : before.entries.length ≤ after.entries.length := by
    obtain ⟨news, hnews, -⟩ := h.entries
    simp [hnews]
  have hstart : after.start p = before.start p := by simp [start, h.here_eq]
  unfold resolve?
  rw [hstart, wayThrough_congr h.linkAt?_eq, wayThrough_of_le hlength]
  split
  · rfl
  · rename_i names _
    have hiff : after.follow true ⟨"/", plainNames names⟩ = .error .linkLoop ↔
        before.follow true ⟨"/", plainNames names⟩ = .error .linkLoop :=
      ⟨hcircle _ ⟨rfl, notMem_plainNames names⟩, h.keeps.follow_lasting trivial⟩
    dsimp only
    split
    · rename_i hloop
      rw [hiff.mp hloop]
    · rename_i hno
      split
      · rename_i hloop
        exact absurd (hiff.mpr hloop) hno
      · rfl

end Disk

end ThemeOverride
