import ThemeOverride.Proofs.Output.Outcome
import ThemeOverride.Proofs.Override.SourcePath
import ThemeOverride.Proofs.Run.Contents

/-!
# Where a run adds to a disk

All that a run adds to a disk, files and directories, lies in the directory for sources of the target
module, as far as the names of its path tell. Which resource is extended makes no difference to that,
nor what is answered. Only the name of an extension can lead out: it is taken into the path as its
manifest states it, and may be absolute or lead up.

## Main definitions

* `ThemeOverride.Path.StaysBelow` — names that at no point lead above where they begin.
* `ThemeOverride.Path.IsInside` — a path below the directory for sources of a module, by its names.
* `ThemeOverride.Disk.GrowsAt` — all that is new on a disk lies at certain paths.
* `ThemeOverride.Module.StaysInside` — a module that is no extension, or one whose name stays below.

## Main results

* `ThemeOverride.writeNew_growsInside` — what a writer adds lies along its path.
* `ThemeOverride.Prepared.exists_directory_eq` — where the override of a resource goes.
* `ThemeOverride.extend_inside` — what a run adds lies in the target module.
* `ThemeOverride.extend_outside` — the name of an extension can lead out of it.

## Design

A place is where the names of a path lead through the links on the way. That a path is inside is said
of its names alone; the place may be anywhere, if there are links in the target module. The root of
the module is taken as it is resolved, since outputs are put below that.
-/

namespace ThemeOverride

variable {σ : Type}

/-! ## Names -/

namespace Disk

lemma plainNames_concat (names : List String) (name : String) :
    plainNames (names ++ [name]) =
      if name == ".." then (plainNames names).dropLast else plainNames names ++ [name] := by
  rw [plainNames, List.foldl_append]
  rfl

/-- Names that do not lead up are kept. -/
lemma plainNames_eq_self {names : List String} (h : ".." ∉ names) : plainNames names = names := by
  induction names using List.reverseRecOn with
  | nil => rfl
  | append_singleton names name ih =>
    rw [List.mem_append, not_or] at h
    have hup : ¬ (name == "..") = true := by simpa using fun he => h.2 (by simp [he])
    rw [plainNames_concat, ih h.1, if_neg hup]

end Disk

namespace Path

/-- **Names that stay below where they begin**: at no point have more of them led up than down. -/
def StaysBelow (names : List String) : Prop :=
  ∀ before ∈ names.inits, 2 * before.count ".." ≤ before.length

instance (names : List String) : Decidable (StaysBelow names) :=
  inferInstanceAs (Decidable (∀ before ∈ names.inits, _))

namespace StaysBelow

variable {names more : List String} {name : String}

lemma le (h : StaysBelow names) : 2 * names.count ".." ≤ names.length :=
  h names ((List.mem_inits _ _).mpr List.prefix_rfl)

lemma of_prefix (h : StaysBelow names) (hp : more <+: names) : StaysBelow more :=
  fun before hb => h before ((List.mem_inits _ _).mpr (((List.mem_inits _ _).mp hb).trans hp))

lemma append (h : StaysBelow names) (h' : StaysBelow more) : StaysBelow (names ++ more) := by
  intro before hb
  have hb := (List.mem_inits _ _).mp hb
  rcases List.prefix_or_prefix_of_prefix hb (List.prefix_append names more) with hp | ⟨rest, rfl⟩
  · exact h before ((List.mem_inits _ _).mpr hp)
  · have hle := h.le
    have hle' := h' rest ((List.mem_inits _ _).mpr ((List.prefix_append_right_inj names).mp hb))
    rw [List.count_append, List.length_append]
    omega

lemma singleton (hup : name ≠ "..") : StaysBelow [name] := by
  intro before hb
  rcases List.prefix_cons_iff.mp ((List.mem_inits _ _).mp hb) with rfl | ⟨rest, rfl, hrest⟩
  · simp
  · rw [List.prefix_nil.mp hrest]
    simp [hup]

/-- Names that stay below lead to something below. -/
lemma exists_plainNames {base : List String} (h : StaysBelow names) (hbase : ".." ∉ base) :
    ∃ below, Disk.plainNames (base ++ names) = base ++ below ∧
      below.length + 2 * names.count ".." = names.length := by
  induction names using List.reverseRecOn with
  | nil => exact ⟨[], by simp [Disk.plainNames_eq_self hbase], by simp⟩
  | append_singleton names name ih =>
    obtain ⟨below, hplain, hlength⟩ := ih (h.of_prefix (List.prefix_append _ _))
    have hle := h.le
    rw [← List.append_assoc, Disk.plainNames_concat, hplain]
    by_cases hup : name = ".."
    · subst hup
      rw [List.count_append, List.length_append] at hle ⊢
      simp only [List.count_singleton_self, List.length_singleton] at hle ⊢
      have hne : below ≠ [] := by
        rintro rfl
        simp only [List.length_nil] at hlength
        omega
      refine ⟨below.dropLast, ?_, ?_⟩
      · rw [if_pos (by rfl), List.dropLast_append_of_ne_nil hne]
      · have hpos := List.length_pos_of_ne_nil hne
        rw [List.length_dropLast]
        omega
    · refine ⟨below ++ [name], ?_, ?_⟩
      · rw [if_neg (by simpa using hup), List.append_assoc]
      · have hcount : [name].count ".." = 0 :=
          List.count_eq_zero_of_not_mem (by simpa using Ne.symm hup)
        rw [List.count_append, List.length_append, List.length_append, hcount]
        omega

end StaysBelow

/-- **A path that lies in the directory for sources of a module**, or is that directory, read as if
there were no links. -/
def IsInside (p root : Path) : Prop :=
  p.root = root.root ∧ root.names ++ ["src"] <+: Disk.plainNames p.names

instance (p root : Path) : Decidable (p.IsInside root) := inferInstanceAs (Decidable (_ ∧ _))

lemma isInside_of_staysBelow {root : Path} {more : List String} (hroot : ".." ∉ root.names)
    (h : StaysBelow more) : IsInside ⟨root.root, root.names ++ ["src"] ++ more⟩ root := by
  obtain ⟨below, hbelow, -⟩ := h.exists_plainNames
    (show ".." ∉ root.names ++ ["src"] by simp [hroot])
  exact ⟨rfl, hbelow ▸ List.prefix_append _ _⟩

end Path

/-! ## What a writer adds -/

namespace Disk

variable {d made before between after : Disk} {p : Path} {place : Place} {node : Node}

/-- **All that is new on a disk lies at certain paths**, and all that lay on it is kept. -/
structure GrowsAt (inside : Path → Prop) (before after : Disk) : Prop where
  keeps : before.Extends after
  new : ∀ place node, after.node? place = some node → before.node? place = none →
    ∃ q, inside q ∧ after.follow true q = .ok (.node place node)

variable {inside : Path → Prop}

lemma GrowsAt.refl (d : Disk) : GrowsAt inside d d where
  keeps := .refl d
  new place node hn hb := by rw [hb] at hn; cases hn

lemma GrowsAt.trans (h : GrowsAt inside before between) (h' : GrowsAt inside between after) :
    GrowsAt inside before after where
  keeps := h.keeps.trans h'.keeps
  new place node hn hb := by
    rcases h'.keeps.eq_none_or_eq hn with hnew | hold
    · exact h'.new place node hn hnew
    · obtain ⟨q, hq, hf⟩ := h.new place node hold hb
      exact ⟨q, hq, h'.keeps.follow_node hf⟩

lemma GrowsAt.mono {inside' : Path → Prop} (h : GrowsAt inside before after)
    (hi : ∀ q, inside q → inside' q) : GrowsAt inside' before after where
  keeps := h.keeps
  new place node hn hb := by
    obtain ⟨q, hq, hf⟩ := h.new place node hn hb
    exact ⟨q, hi q hq, hf⟩

/-- Whether a path is another one or lies above it, by its names. -/
def IsAlong (p q : Path) : Prop := q.root = p.root ∧ q.names <+: p.names

lemma makeDirectory_growsAlong (h : d.makeDirectory p = .ok made) : GrowsAt (IsAlong p) d made := by
  obtain ⟨place, hv, rfl⟩ := makeDirectory_eq_ok h
  have hnone := node?_of_vacancy hv
  have hput := node?_put d (ne_nil_of_node?_eq_none hnone) .directory
  refine ⟨extends_put hnone _, fun other node hn hb => ⟨p, ⟨rfl, List.prefix_rfl⟩, ?_⟩⟩
  by_cases ho : other = place
  · subst ho
    rw [hput, Option.some.injEq] at hn
    rw [follow_of_vacancy hv (extends_put hnone _) (by simp [hput]), endAt, hput, hn]
  · rw [node?_put_of_ne d ho, hb] at hn
    cases hn

lemma makeDirectoriesUpTo_zero_growsAlong (d : Disk) (p : Path) :
    GrowsAt (IsAlong p) d (d.makeDirectoriesUpTo p 0).1 := by
  unfold makeDirectoriesUpTo
  split
  · rename_i made hm
    exact makeDirectory_growsAlong hm
  · split
    · exact .refl d
    · exact .refl d

/-- **The directories that are made lie along the path**, whether or not all could be made. -/
lemma makeDirectoriesUpTo_growsAlong (d : Disk) (p : Path) (above : Nat) :
    GrowsAt (IsAlong p) d (d.makeDirectoriesUpTo p above).1 := by
  induction above generalizing p with
  | zero => exact makeDirectoriesUpTo_zero_growsAlong d p
  | succ above ih =>
    have hup : GrowsAt (IsAlong p) d (d.makeDirectoriesUpTo p.parent above).1 :=
      (ih p.parent).mono fun q hq => ⟨hq.1, hq.2.trans (List.dropLast_prefix _)⟩
    unfold makeDirectoriesUpTo
    split
    · rename_i made hm
      exact makeDirectory_growsAlong hm
    · split
      · exact .refl d
      · split
        · rename_i between fault hb
          rwa [hb] at hup
        · rename_i between hb
          rw [hb] at hup
          exact hup.trans (makeDirectoriesUpTo_zero_growsAlong between p)

/-- **What a writer adds**: directories along the path of that of the file, and the file. -/
lemma writeNew_growsAt (d : Disk) (p : Path) (content : String) :
    GrowsAt (fun q => IsAlong p.parent q ∨
      q = p ∧ (writeNew d p content).1.isFile p = true) d (writeNew d p content).1 := by
  have hmade : ∀ {made refused}, d.makeDirectories p.parent = (made, refused) →
      GrowsAt (IsAlong p.parent) d made := by
    intro made refused hm
    have hgrows := makeDirectoriesUpTo_growsAlong d p.parent p.parent.names.length
    rwa [← makeDirectories, hm] at hgrows
  obtain ⟨-, hw⟩ | ⟨-, ⟨made, fault, hm, hw⟩ | ⟨made, fault, hm, -, hw⟩ | ⟨made, place, hm, hv, hw⟩⟩ :=
    writeNew_cases d p content
  · rw [hw]
    exact .refl d
  · rw [hw]
    exact (hmade hm).mono fun q hq => .inl hq
  · rw [hw]
    exact (hmade hm).mono fun q hq => .inl hq
  · rw [hw]
    have hnone := node?_of_vacancy hv
    obtain ⟨hfile, hother⟩ := node?_put_fill made (ne_nil_of_node?_eq_none hnone) (Text.encode content)
    have hfollow := follow_put_fill hv (Text.encode content)
    refine ((hmade hm).mono fun q hq => .inl hq).trans ⟨extends_put_fill hnone _,
      fun other node hn hb => ⟨p, .inr ⟨rfl, by simp [isFile, nodeAt?, hfollow]⟩, ?_⟩⟩
    by_cases ho : other = place
    · subst ho
      rw [hfile, Option.some.injEq] at hn
      rw [hfollow, hn]
    · rw [hother other ho, hb] at hn
      cases hn

/-- Whether something lies on the way to a path and at its end. -/
def IsThere (d : Disk) (root : Path) : Prop :=
  ∀ q, IsAlong root q → ∃ place node, d.follow true q = .ok (.node place node) ∧
    d.node? place = some node

lemma IsThere.mono {root : Path} (h : before.IsThere root) (he : before.Extends after) :
    after.IsThere root := by
  intro q hq
  obtain ⟨place, node, hf, hn⟩ := h q hq
  exact ⟨place, node, he.follow_node hf, he.keeps _ _ hn⟩

/-- Nothing new lies along a path that was there before. -/
lemma GrowsAt.beyond {root : Path} (h : GrowsAt inside before after) (hroot : before.IsThere root) :
    GrowsAt (fun q => inside q ∧ ¬ IsAlong root q) before after where
  keeps := h.keeps
  new place node hn hb := by
    obtain ⟨q, hq, hf⟩ := h.new place node hn hb
    refine ⟨q, ⟨hq, fun halong => ?_⟩, hf⟩
    obtain ⟨place', node', hf', hn'⟩ := hroot q halong
    rw [h.keeps.follow_node hf', Except.ok.injEq, Found.node.injEq] at hf
    rw [hf.1, hb] at hn'
    cases hn'

/-- What has an open place, or a file in one, at its end is there. -/
lemma IsEnd.isThere (h : d.IsEnd place node) : d.IsThere ⟨"/", place⟩ := by
  rintro ⟨root, names⟩ ⟨rfl, hnames⟩
  have hopen : ∀ {above}, d.IsOpen above → ∃ place node,
      d.follow true ⟨"/", above⟩ = .ok (.node place node) ∧ d.node? place = some node :=
    fun {above} ha => ⟨above, .directory, ha.follow, ha.directory above List.prefix_rfl⟩
  cases h with
  | directory h => exact hopen (h.of_prefix hnames)
  | @file above name content h hup hfile =>
    rcases List.prefix_concat_iff.mp hnames with rfl | hprefix
    · exact ⟨_, _, (IsEnd.file h hup hfile).follow.1, hfile⟩
    · exact hopen (h.of_prefix hprefix)

end Disk

/-! ## Where an override goes -/

/-- The root of a module is there, and without names that lead up. -/
lemma exists_root_isThere {d : Disk} {settings : Settings} {p : Path} {m : Module}
    (hs : d.Sound) (hm : IsRelativeMarker settings.markerFile)
    (h : moduleAt d settings p = .ok m) :
    ∃ place, resolvePath d m.root = .ok ⟨"/", place⟩ ∧ ".." ∉ place ∧ d.IsThere ⟨"/", place⟩ := by
  obtain ⟨habsolute, hmarker⟩ := isModuleRoot_of_moduleRoot (moduleRoot_of_moduleAt h)
  obtain ⟨place, node, hresolve, hend⟩ : ∃ place node,
      d.resolve? m.root = some ⟨"/", place⟩ ∧ d.IsEnd place node := by
    rcases isModuleRoot_cases hm habsolute hmarker with ⟨place, hopen, hresolve, -⟩ | ⟨hnone, -⟩
    · exact ⟨place, .directory, resolvePath_eq_ok_iff.mp hresolve, .directory hopen⟩
    · obtain ⟨place, content, hfollow⟩ := isModuleRoot_iff.mp hmarker
      rw [child_eq hm, hnone, List.append_nil] at hfollow
      exact ⟨place, _, Disk.resolve?_of_follow (Disk.isOpen_start habsolute) hfollow⟩
  exact ⟨place, resolvePath_eq_ok_iff.mpr hresolve, (Disk.isPlain_of_resolve? hs.noUp hresolve).noUp,
    hend.isThere⟩

/-- **A module from which nothing leads out**: it is no extension, or its name is relative and stays
below where it begins. -/
def Module.StaysInside (m : Module) : Prop :=
  m.isExtension = true → ∀ text, m.name.text? = some text →
    (Path.ofString text).isAbsolute = false ∧ Path.StaysBelow (Path.ofString text).names

/-- A text without a slash stands for one name at most. -/
lemma Path.exists_ofString_eq {s : String} (h : '/' ∉ s.toList) :
    ∃ tail, ofString s = ⟨"", tail⟩ ∧ tail.length ≤ 1 := by
  by_cases hname : IsName s
  · exact ⟨[s], ofString_of_isName hname, Nat.le_refl 1⟩
  · rw [IsName, not_and_or, not_and_or] at hname
    rcases hname with hempty | hdot | hslash
    · exact ⟨[], by rw [not_not.mp hempty]; rfl, Nat.zero_le 1⟩
    · exact ⟨[], by rw [not_not.mp hdot]; rfl, Nat.zero_le 1⟩
    · exact absurd h hslash

section

variable {settings : Settings} {task : Task} {target : Module} {d d' : Disk} {job : Job}
  {files : List String} {fileName : String}

/-- The name of a resource with files is a single one. -/
lemma Prepared.notMem_name (h : Prepared settings task target d (some (job, files))) (hs : d.Sound)
    (htype : task.type ≠ .query) (hf : fileName ∈ files) : '/' ∉ task.name.toList := by
  have hname := (h.isName_of_mem htype hs hf).1
  cases h with
  | found _ _ _ hfiles _ =>
    unfold fileList at hfiles
    rw [if_neg (by simpa using htype)] at hfiles
    split at hfiles
    · cases hfiles
    · cases hfiles
      have hsource := (List.mem_filter.mp (List.mem_mergeSort.mp hf)).2
      unfold isSourceFile at hsource
      simp only [Bool.and_eq_true] at hsource
      obtain ⟨rest, hrest⟩ := List.isPrefixOf_iff_prefix.mp hsource.1.2
      intro hslash
      refine hname.2.2 ?_
      rw [← hrest]
      simp [hslash]

/-- Where a resource with files lies below the directory for sources. -/
lemma Prepared.exists_directory (h : Prepared settings task target d (some (job, files)))
    (hs : d.Sound) (hf : fileName ∈ files) :
    ∃ below, task.type.directory task.name = ⟨"", "src" :: below⟩ ∧ Path.StaysBelow below ∧
      below ≠ [] := by
  have hbase : ∀ type : ResourceType, ∀ tail : List String, tail.length ≤ 1 →
      Path.StaysBelow (type.name :: tail) := by
    intro type tail htail before hb
    have hup := type.name_ne_up
    rcases List.prefix_cons_iff.mp ((List.mem_inits _ _).mp hb) with rfl | ⟨rest, rfl, hrest⟩
    · simp
    · have hle := (List.count_le_length (a := "..") (l := rest)).trans hrest.length_le
      have hlength := List.count_le_length (a := "..") (l := rest)
      rw [List.count_cons_of_ne hup, List.length_cons]
      omega
  by_cases htype : task.type = .query
  · exact ⟨["query"], by rw [htype]; rfl, hbase .query [] (Nat.zero_le 1), by simp⟩
  · obtain ⟨tail, htail, hlength⟩ := Path.exists_ofString_eq (h.notMem_name hs htype hf)
    refine ⟨task.type.name :: tail, ?_, hbase _ tail hlength, by simp⟩
    have hchild : (Path.mk "" ["src", task.type.name]).child task.name =
        ⟨"", "src" :: task.type.name :: tail⟩ := by
      simp [Path.child, Path.join, htail, Path.isAbsolute]
    unfold ResourceType.directory
    cases hcase : task.type with
    | query => exact absurd hcase htype
    | component | route | store => rw [hcase] at hchild; exact hchild

/-- **Where the override of a resource goes**: below the directory for sources. -/
theorem Prepared.exists_directory_eq (h : Prepared settings task target d (some (job, files)))
    (hs : d.Sound) (hf : fileName ∈ files) (hname : job.sourceModule.StaysInside) {root : Path}
    (hroot : resolvePath d target.root = .ok root) :
    ∃ more, job.directory = ⟨root.root, root.names ++ ["src"] ++ more⟩ ∧ Path.StaysBelow more ∧
      more ≠ [] := by
  obtain ⟨below, hdirectory, hbelow, hne⟩ := h.exists_directory hs hf
  cases h with
  | @found resource directory source notes files hlocate hsource hcan hfiles htarget =>
    unfold targetDirectory at htarget
    rw [hroot] at htarget
    simp only [bind, Except.bind] at htarget
    split at htarget
    · cases htarget
      exact ⟨below, by simp [hdirectory, Path.join, Path.isAbsolute], hbelow, hne⟩
    · rename_i hextension
      split at htarget
      · cases htarget
      · rename_i text htext
        obtain ⟨hrelative, hstays⟩ := hname (by simpa using hextension) text htext
        rw [hdirectory] at htarget
        cases htarget
        have hsrc : root.child "src" = ⟨root.root, root.names ++ ["src"]⟩ :=
          Path.child_of_isName (by unfold Path.IsName; decide) root
        have hwithin : (root.child "src").child text =
            ⟨root.root, root.names ++ ["src"] ++ (Path.ofString text).names⟩ := by
          rw [hsrc, Path.child, Path.join, if_neg (by simp [hrelative])]
        refine ⟨(Path.ofString text).names ++ below, ?_, hstays.append hbelow, by simp [hne]⟩
        simp [hwithin, Path.join, Path.isAbsolute]

/-- The outputs for a source file lie in the directory of the override, if the style file is named by
one name. -/
lemma Prepared.exists_output_eq (h : Prepared settings task target d (some (job, files)))
    (hs : d.Sound) (hstyle : '/' ∉ settings.styleExtension.toList) (hf : fileName ∈ files) {p : Path}
    (hp : p ∈ job.outputs fileName) :
    ∃ tail, p = ⟨job.directory.root, job.directory.names ++ tail⟩ ∧ tail.length ≤ 1 := by
  obtain ⟨htask, hsettings⟩ := h.task_eq
  rcases List.mem_append.mp hp with hp | hp
  · unfold Job.styleOutputs at hp
    split at hp
    · rename_i hcarries
      obtain rfl := List.mem_singleton.mp hp
      have htype : task.type ≠ .query := by
        intro htype
        rw [htask, htype] at hcarries
        cases hcarries
      have hslash : '/' ∉ (job.task.name ++ job.settings.styleExtension).toList := by
        rw [htask, hsettings, String.toList_append, List.mem_append]
        exact fun hmem => hmem.elim (h.notMem_name hs htype hf) hstyle
      obtain ⟨tail, htail, hlength⟩ := Path.exists_ofString_eq hslash
      refine ⟨tail, ?_, hlength⟩
      rw [stylePath, Path.child, htail, Path.join, if_neg (by simp [Path.isAbsolute])]
    · cases hp
  · obtain rfl := List.mem_singleton.mp hp
    exact ⟨[_], job.targetPath_eq (h.isName_targetName hs hf).1, Nat.le_refl 1⟩

end

/-! ## What runs add -/

section

variable {root : Path} {more tail : List String}

/-- A path along that to an output is inside, unless it is along that to the root. -/
lemma isInside_of_isAlong (hup : ".." ∉ root.names) (hmore : Path.StaysBelow more) {q : Path}
    (hq : Disk.IsAlong ⟨root.root, root.names ++ ["src"] ++ more⟩ q) (hnot : ¬ Disk.IsAlong root q) :
    q.IsInside root := by
  obtain ⟨slash, names⟩ := q
  obtain ⟨rfl, hprefix⟩ := hq
  rw [List.append_assoc] at hprefix
  rcases List.prefix_or_prefix_of_prefix hprefix (List.prefix_append root.names _) with
    habove | ⟨rest, rfl⟩
  · exact absurd ⟨rfl, habove⟩ hnot
  · rcases List.prefix_cons_iff.mp ((List.prefix_append_right_inj root.names).mp hprefix) with
      rfl | ⟨rest, rfl, hrest⟩
    · exact absurd ⟨rfl, by simp⟩ hnot
    · have hinside := Path.isInside_of_staysBelow hup (hmore.of_prefix hrest)
      rw [List.append_assoc] at hinside
      exact hinside

/-- A file in a directory inside is inside. -/
lemma isInside_of_isFile {d : Disk} (hup : ".." ∉ root.names) (hmore : Path.StaysBelow more)
    (htail : tail.length ≤ 1)
    (hfile : d.isFile ⟨root.root, root.names ++ ["src"] ++ more ++ tail⟩ = true) :
    Path.IsInside ⟨root.root, root.names ++ ["src"] ++ more ++ tail⟩ root := by
  obtain ⟨name, hname, hlast⟩ := Disk.exists_getLast?_of_isFile hfile
  rw [List.append_assoc]
  refine Path.isInside_of_staysBelow hup ?_
  match tail, htail with
  | [], _ => rwa [List.append_nil]
  | [other], _ =>
    rw [List.getLast?_concat, Option.some.injEq] at hname
    exact hmore.append (.singleton (hname ▸ hlast))

/-- **What a writer adds in a directory inside is inside.** -/
theorem writeNew_growsInside {d : Disk} (hup : ".." ∉ root.names) (hroot : d.IsThere root)
    (hmore : Path.StaysBelow more) (htail : tail.length ≤ 1) (content : String) :
    Disk.GrowsAt (·.IsInside root) d
      (writeNew d ⟨root.root, root.names ++ ["src"] ++ more ++ tail⟩ content).1 := by
  refine ((Disk.writeNew_growsAt d _ content).beyond hroot).mono fun q hq => ?_
  obtain ⟨halong | ⟨rfl, hfile⟩, hnot⟩ := hq
  · refine isInside_of_isAlong hup hmore ⟨halong.1, halong.2.trans ?_⟩ hnot
    match tail, htail with
    | [], _ =>
      rw [List.append_nil]
      exact List.dropLast_prefix _
    | [other], _ =>
      rw [Path.parent, List.dropLast_concat]
  · exact isInside_of_isFile hup hmore htail hfile

end

namespace Job

variable {job : Job} {files : List String} {fileName : String} {d d' : Disk}
  {transcript : List Moment}

section

variable (rel : Disk → Disk → Prop) (hrefl : ∀ d, rel d d)
  (htrans : ∀ {d₀ d₁ d₂}, rel d₀ d₁ → rel d₁ d₂ → rel d₀ d₂)

include hrefl htrans

lemma Told.preserves {result : Except Failure (List Path)}
    (h : Told job fileName d result d' transcript)
    (hwrite : ∀ p ∈ job.outputs fileName, ∀ d text, rel d (writeNew d p text).1) : rel d d' := by
  have hstyle : ∀ {r : Except Failure (Option StyleOption × List Path)} {d d' : Disk}
      {styling : List Moment}, ToldStyle job fileName d r d' styling → rel d d' := by
    intro r d d' styling hs
    cases hs with
    | none | unanswered | keep => exact hrefl _
    | @file _ _ _ text _ hcarries _ hw =>
      obtain rfl := congrArg Prod.fst hw
      exact hwrite _ (mem_outputs_stylePath hcarries) _ text
  cases h with
  | skipped | present | unread | bare => exact hrefl _
  | overridden _ _ _ _ ho =>
    cases ho with
    | unanswered => exact hrefl _
    | stopped hs => exact hstyle hs
    | nothing hs => exact hstyle hs
    | chosen hs _ hw =>
      refine htrans (hstyle hs) ?_
      cases hw with
      | failed => exact hrefl _
      | @tried _ _ text _ _ hw =>
        obtain rfl := congrArg Prod.fst hw
        exact hwrite _ (job.mem_outputs_targetPath fileName) _ text

/-- **A relation that each write preserves is preserved by the story of source files.** -/
theorem ToldAll.preserves {result : Except Failure (List Path)}
    (h : ToldAll job files d result d' transcript)
    (hwrite : ∀ f ∈ files, ∀ p ∈ job.outputs f, ∀ d text, rel d (writeNew d p text).1) :
    rel d d' := by
  induction h with
  | nil => exact hrefl _
  | stopped h => exact h.preserves rel hrefl htrans (hwrite _ List.mem_cons_self)
  | cons h _ ih =>
    exact htrans (h.preserves rel hrefl htrans (hwrite _ List.mem_cons_self))
      (ih fun f hf => hwrite f (List.mem_cons_of_mem _ hf))

end

lemma mem_writtenIn_ofWrite (p : Path) (text : String) :
    p ∈ writtenIn (Moment.ofWrite p text (.ok true)) := by
  simp [writtenIn, Moment.ofWrite, Moment.written?]

lemma ToldStyle.created {option : Option StyleOption} {styles : List Path} {styling : List Moment}
    (h : ToldStyle job fileName d (.ok (option, styles)) d' styling) {p : Path} (hp : p ∈ styles) :
    p ∈ job.outputs fileName ∧ p ∈ writtenIn styling := by
  generalize hr : (.ok (option, styles) : Except Failure (Option StyleOption × List Path)) = r at h
  cases h with
  | none | keep =>
    cases hr
    cases hp
  | unanswered => cases hr
  | @file _ _ _ text written hcarries _ hw =>
    cases written with
    | error e => cases hr
    | ok isNew =>
      cases hr
      cases isNew with
      | false => cases hp
      | true =>
        obtain rfl := List.mem_singleton.mp hp
        exact ⟨mem_outputs_stylePath hcarries, mem_writtenIn_ofWrite _ text⟩

lemma ToldWrite.created {plan : OverridePlan} {result : Except Failure (List Path)}
    {writing : List Moment} (h : ToldWrite job fileName plan d result d' writing)
    {created : List Path} (hr : result = .ok created) {p : Path} (hp : p ∈ created) :
    p ∈ job.outputs fileName ∧ p ∈ writtenIn writing := by
  cases h with
  | failed =>
    cases hr
    cases hp
  | @tried _ _ text written _ hw =>
    cases written with
    | error e => cases hr
    | ok isNew =>
      cases hr
      cases isNew with
      | false => cases hp
      | true =>
        obtain rfl := List.mem_singleton.mp hp
        exact ⟨job.mem_outputs_targetPath fileName, mem_writtenIn_ofWrite _ text⟩

lemma Told.created {result : Except Failure (List Path)}
    (h : Told job fileName d result d' transcript) {created : List Path}
    (hr : result = .ok created) {p : Path} (hp : p ∈ created) :
    p ∈ job.outputs fileName ∧ p ∈ writtenIn transcript := by
  cases h with
  | skipped | present | bare =>
    cases hr
    cases hp
  | unread => cases hr
  | overridden _ _ _ _ ho =>
    cases ho with
    | unanswered | stopped => cases hr
    | nothing hs =>
      cases hr
      exact hs.created hp
    | @chosen _ _ _ _ _ styles styling writing result hs _ hw =>
      cases result with
      | error e => cases hr
      | ok more =>
        cases hr
        have hparts : writtenIn (styling ++ writing) = writtenIn styling ++ writtenIn writing :=
          List.filterMap_append
        change _ ∧ p ∈ writtenIn (styling ++ writing)
        rw [hparts]
        rcases List.mem_append.mp hp with hp | hp
        · obtain ⟨hout, hwritten⟩ := hs.created hp
          exact ⟨hout, List.mem_append_left _ hwritten⟩
        · obtain ⟨hout, hwritten⟩ := hw.created rfl hp
          exact ⟨hout, List.mem_append_right _ hwritten⟩

/-- **What is given as created is written**, and is an output for one of the source files. -/
theorem ToldAll.created {result : Except Failure (List Path)}
    (h : ToldAll job files d result d' transcript) {created : List Path}
    (hr : result = .ok created) {p : Path} (hp : p ∈ created) :
    (∃ f ∈ files, p ∈ job.outputs f) ∧ p ∈ writtenIn transcript := by
  induction h generalizing created with
  | nil =>
    cases hr
    cases hp
  | stopped => cases hr
  | @cons fileName rest _ _ _ first result transcript later h _ ih =>
    cases result with
    | error e => cases hr
    | ok more =>
      cases hr
      have hparts : writtenIn (transcript ++ later) = writtenIn transcript ++ writtenIn later :=
        List.filterMap_append
      rw [hparts]
      rcases List.mem_append.mp hp with hp | hp
      · obtain ⟨hout, hwritten⟩ := h.created rfl hp
        exact ⟨⟨_, List.mem_cons_self, hout⟩, List.mem_append_left _ hwritten⟩
      · obtain ⟨⟨f, hf, hout⟩, hwritten⟩ := ih rfl hp
        exact ⟨⟨f, List.mem_cons_of_mem _ hf, hout⟩, List.mem_append_right _ hwritten⟩

end Job

/-- **Nothing leads out of the target module**: what is found for the task comes from a module from
which nothing leads out. -/
def Task.StaysInside (settings : Settings) (task : Task) (d : Disk) : Prop :=
  ∀ target job files, moduleAt d settings task.target = .ok target →
    Prepared settings task target d (some (job, files)) → job.sourceModule.StaysInside

/-- **What a run adds lies in the target module.** Whatever is answered, and also if it fails, all the
files and directories that a run adds lie at the ends of paths in the directory for sources of the
target module, and so do the files that it gives as created.

**Proof sketch.** Each output is one name below the directory of the override, which stays below the
directory for sources (`Prepared.exists_directory_eq`). A writer adds directories along the path of
that directory, and the root of the module was there before (`writeNew_growsInside`). -/
theorem extend_inside (op : Operator σ) (tidier : Tidier) (settings : Settings) (task : Task)
    (s : Scene σ) (hs : s.disk.Sound) (ht : task.target.Proper)
    (hm : IsRelativeMarker settings.markerFile) (hstyle : '/' ∉ settings.styleExtension.toList)
    (hstays : task.StaysInside settings s.disk) :
    (∀ place node, (extend op tidier settings task s).2.disk.node? place = some node →
      s.disk.node? place = none →
      ∃ target root q, moduleAt s.disk settings task.target = .ok target ∧
        resolvePath s.disk target.root = .ok root ∧ q.IsInside root ∧
        (extend op tidier settings task s).2.disk.follow true q = .ok (.node place node)) ∧
    ∀ created, (extend op tidier settings task s).1 = .ok created → ∀ text ∈ created,
      ∃ target root, moduleAt s.disk settings task.target = .ok target ∧
        resolvePath s.disk target.root = .ok root ∧ (Path.ofString text).IsInside root := by
  obtain ⟨transcript, htold, -, -⟩ := extend_tells op tidier settings task s
  generalize extend op tidier settings task s = run at htold ⊢
  obtain ⟨result, s'⟩ := run
  dsimp only at htold ⊢
  generalize s'.disk = d' at htold ⊢
  cases htold with
  | stopped => exact ⟨fun place node hn hb => by (rw [hb] at hn; cases hn), nofun⟩
  | nothing =>
    refine ⟨fun place node hn hb => by (rw [hb] at hn; cases hn), fun created hc text htext => ?_⟩
    cases hc
    cases htext
  | @handled _ _ target job files result _ htarget hp h =>
    obtain ⟨place, hresolve, hup, hthere⟩ := exists_root_isThere hs hm htarget
    -- each output is one name below a directory that stays below that for sources
    have houtput : ∀ f ∈ files, ∀ p ∈ job.outputs f, ∃ more tail, Path.StaysBelow more ∧
        tail.length ≤ 1 ∧ p = ⟨"/", place ++ ["src"] ++ more ++ tail⟩ := by
      intro f hf p hpo
      obtain ⟨more, hdirectory, hmore, -⟩ := hp.exists_directory_eq hs hf
        (hstays target job files htarget hp) hresolve
      obtain ⟨tail, hpath, hlength⟩ := hp.exists_output_eq hs hstyle hf hpo
      exact ⟨more, tail, hmore, hlength, by rw [hpath, hdirectory]⟩
    have hgrows : Disk.GrowsAt (·.IsInside ⟨"/", place⟩) s.disk d' := by
      refine h.preserves (fun d d' => s.disk.Extends d → Disk.GrowsAt (·.IsInside ⟨"/", place⟩) d d')
        (fun d _ => .refl d) (fun h₁ h₂ he => (h₁ he).trans (h₂ (he.trans (h₁ he).keeps)))
        (fun f hf p hpo d text he => ?_) (.refl _)
      obtain ⟨more, tail, hmore, hlength, rfl⟩ := houtput f hf p hpo
      exact writeNew_growsInside hup (hthere.mono he) hmore hlength text
    refine ⟨fun other node hn hb => ?_, fun created hc text htext => ?_⟩
    · obtain ⟨q, hq, hf⟩ := hgrows.new other node hn hb
      exact ⟨target, _, q, htarget, hresolve, hq, hf⟩
    · cases result with
      | error e => cases hc
      | ok paths =>
        cases hc
        obtain ⟨p, hpp, rfl⟩ := List.mem_map.mp htext
        obtain ⟨⟨f, hf, hpo⟩, hwritten⟩ := h.created rfl hpp
        have hfile := h.records.grows.present p hwritten
        have hinside : p.IsInside ⟨"/", place⟩ := by
          obtain ⟨more, tail, hmore, hlength, rfl⟩ := houtput f hf p hpo
          exact @isInside_of_isFile ⟨"/", place⟩ _ _ _ hup hmore hlength hfile
        have hproper := Job.proper_of_mem_outputs (hp.proper hs.toProper ht htarget) hpo
        rw [Path.ofString_toString hproper]
        exact ⟨target, _, htarget, hresolve, hinside⟩

/-- Two modules, one of which is an extension with a store, under a name. -/
def Disk.extensionNamed (name : String) : Disk where
  entries :=
    [(["t"], .directory), (["t", "package.json"], .file (Text.encode "\x7b\x7d")),
     (["b"], .directory), (["b", "package.json"], .file (Text.encode
       ("\x7b\"name\": \"" ++ name ++ "\", \"scandipwa\": \x7b\"type\": \"extension\"\x7d\x7d"))),
     (["b", "src"], .directory), (["b", "src", "store"], .directory),
     (["b", "src", "store", "X"], .directory),
     (["b", "src", "store", "X", "X.js"], .file (Text.encode "export const b = 1;"))]

lemma Disk.extensionNamed_sound (name : String) : (extensionNamed name).Sound where
  here := by simp [extensionNamed]
  links place target h := by
    have hfree : (extensionNamed name).LinkFree := by simp [LinkFree, extensionNamed]
    exact absurd h (hfree.node?_ne_link place target)
  entries := by simp [extensionNamed, Path.IsName]
  noUp := by simp [extensionNamed]

lemma Task.moduleAt_extensionNamed : moduleAt (Disk.extensionNamed "@e/e") {} Task.store.target =
    .ok ⟨⟨"/", ["t"]⟩, .text "t", .text "theme", .null⟩ := by
  rfl

lemma Task.staysInside_extensionNamed : Task.store.StaysInside {} (Disk.extensionNamed "@e/e") := by
  intro target job files htarget hp
  obtain rfl := Except.ok.inj (Task.moduleAt_extensionNamed.symm.trans htarget)
  cases hp with
  | @found resource directory source notes files hlocate hsource =>
    have hresource : (locate (Disk.extensionNamed "@e/e") {} .store "X" ⟨"/", ["t"]⟩
        (some (.ofString "/b"))).2 = .ok ⟨"/", ["b", "src", "store", "X"]⟩ := by decide +kernel
    obtain rfl := Except.ok.inj (hresource.symm.trans hlocate)
    have hmodule : (moduleAt (Disk.extensionNamed "@e/e") {}
        ⟨"/", ["b", "src", "store", "X"]⟩).toOption.map (·.name.text?) = some (some "@e/e") := by
      decide +kernel
    rw [hsource] at hmodule
    intro _ text htext
    obtain rfl : text = "@e/e" := Option.some.inj (htext.symm.trans (Option.some.inj hmodule))
    decide

theorem extend_inside_extensionNamed :
    (Disk.extensionNamed "@e/e").Sound ∧ Task.store.StaysInside {} (Disk.extensionNamed "@e/e") ∧
    ∀ created, (extend Operator.eager (fun _ _ _ => {}) {} Task.store
      ⟨Disk.extensionNamed "@e/e", (), []⟩).1 = .ok created →
      ∀ text ∈ created, (Path.ofString text).IsInside ⟨"/", ["t"]⟩ := by
  have hsound := Disk.extensionNamed_sound "@e/e"
  obtain ⟨-, hcreated⟩ := extend_inside Operator.eager (fun _ _ _ => {}) {} Task.store
    ⟨Disk.extensionNamed "@e/e", (), []⟩ hsound (Path.proper_ofString "/t") (by decide) (by decide)
    Task.staysInside_extensionNamed
  refine ⟨hsound, Task.staysInside_extensionNamed, fun created hc text htext => ?_⟩
  obtain ⟨target, root, htarget, hroot, hinside⟩ := hcreated created hc text htext
  obtain rfl := Except.ok.inj (Task.moduleAt_extensionNamed.symm.trans htarget)
  have hresolve : resolvePath (Disk.extensionNamed "@e/e") ⟨"/", ["t"]⟩ = .ok ⟨"/", ["t"]⟩ := by
    decide
  obtain rfl := Except.ok.inj (hresolve.symm.trans hroot)
  exact hinside

set_option maxRecDepth 10000 in
/-- **The name of an extension can lead out of the target module.** -/
theorem extend_outside :
    (extend Operator.eager (fun _ _ _ => {}) {} Task.store
      ⟨Disk.extensionNamed "../../e", (), []⟩).1 = .ok ["/t/src/../../e/store/X/X.js"] ∧
    (moduleAt (Disk.extensionNamed "../../e") {} Task.store.target).toOption.map (·.root) =
      some ⟨"/", ["t"]⟩ ∧
    resolvePath (Disk.extensionNamed "../../e") ⟨"/", ["t"]⟩ = .ok ⟨"/", ["t"]⟩ ∧
    ¬ (Path.ofString "/t/src/../../e/store/X/X.js").IsInside ⟨"/", ["t"]⟩ := by
  refine ⟨?_, by decide, by decide, by decide⟩
  decide +kernel

end ThemeOverride
