import Mathlib.Data.List.Find
import ThemeOverride.Module.Location
import ThemeOverride.Proofs.Disk.Additions
import ThemeOverride.Proofs.Disk.Below
import ThemeOverride.Proofs.Module.Location
import ThemeOverride.Run.Extend

/-!
# Lookups after additions

After files and directories are added to a disk, modules and resources are found as before, unless
something is among them that is looked at: a marker of a module, or a path of the resource in one of
the modules that are searched.

## Main definitions

* `ThemeOverride.IsMarkerSite` — the directories in which markers are looked for.
* `ThemeOverride.lookedAt` — the paths at which a resource is looked for in a module.
* `ThemeOverride.searchedRoots` — the modules that are searched for the resource of a task.
* `ThemeOverride.Undisturbed` — two disks, on the second of which nothing came into being that is
  looked at.

## Main results

* `ThemeOverride.Undisturbed.moduleAt_eq`, `ThemeOverride.Undisturbed.candidates_eq` — modules are
  found as before.
* `ThemeOverride.Undisturbed.locate_eq`, `ThemeOverride.Undisturbed.fileList_eq` — and so are the
  resource and its files.

## Design

Whether a path came into being is a matter of where it leads, and not of the text of a created path:
a file may be reached by many paths, through links. Only the paths are considered that the lookups
make up, which are plain but for the names of modules that are stated.
-/

namespace ThemeOverride

/-! ## What is looked at -/

/-- A name of a module that some module states as its parent, or the settings as a fallback. -/
def IsStatedName (d : Disk) (settings : Settings) (name : String) : Prop :=
  name ∈ settings.fallbackModules ∨
    ∃ (m : Module) (v : Value), m.parent d settings = .ok v ∧ v.text? = some name

/-- A directory in which a marker is looked for: one at a plain path, or one where a module that is
stated is installed as seen from there. -/
def IsMarkerSite (d : Disk) (settings : Settings) (directory : Path) : Prop :=
  directory.IsPlain ∨ ∃ name above, IsStatedName d settings name ∧ above.IsPlain ∧
    directory = installedIn name above

/-- The paths at which a resource is looked for in a module. -/
def lookedAt (settings : Settings) (root : Path) (type : ResourceType) (name : String) : List Path :=
  let directory := root.join (type.directory name)
  if type == .query then
    settings.scriptExtensions.map fun e => directory.child (name ++ ".query" ++ e)
  else [directory]

/-- The roots of the modules that are searched for the resource of a task, up to the first that
defines it. -/
def searchedRoots (d : Disk) (settings : Settings) (task : Task) (target : Path) : List Path :=
  match task.source with
  | none =>
    ((candidates d settings target).upTo (defines d settings task.type task.name)).roots
  | some p =>
    match moduleRoot d settings.markerFile p with
    | .ok root => [root]
    | .error _ => []

/-- **Two disks, on the second of which nothing came into being that is looked at** for a task: no
marker of a module, no path at or inside one of those at which the resource is looked for in the
modules that are searched, and no circle of links. -/
structure Undisturbed (settings : Settings) (task : Task) (before after : Disk) : Prop where
  markers : ∀ directory, IsMarkerSite before settings directory →
    ¬ before.Gains after (directory.child settings.markerFile)
  resource : ∀ target, moduleAt before settings task.target = .ok target →
    ∀ root ∈ searchedRoots before settings task target.root,
    ∀ p ∈ lookedAt settings root task.type task.name, ∀ names, ".." ∉ names →
      ¬ before.Gains after ⟨p.root, p.names ++ names⟩
  circles : ∀ p : Path, p.IsPlain → after.follow true p = .error .linkLoop →
    before.follow true p = .error .linkLoop

/-! ## Modules -/

lemma Path.IsPlain.of_mem {p q : Path} (hp : p.IsPlain) (hq : q ∈ p :: p.ancestors) : q.IsPlain := by
  obtain ⟨hroot, hnames⟩ := mem_ancestors hq
  exact ⟨by simpa [Path.isAbsolute, hroot] using hp.isAbsolute, fun hn => hp.noUp (hnames.subset hn)⟩

lemma Path.IsPlain.parent {p : Path} (hp : p.IsPlain) : p.parent.IsPlain :=
  ⟨hp.isAbsolute, fun hn => hp.noUp (List.dropLast_subset _ hn)⟩

lemma Path.ancestors_of_ne_nil {p : Path} (h : p.names ≠ []) :
    p.ancestors = p.parent :: p.parent.ancestors := by
  have hlength : p.names.length = p.parent.names.length + 1 := by
    have hpos := List.length_pos_of_ne_nil h
    rw [Path.parent, List.length_dropLast]
    omega
  rw [Path.ancestors, hlength, Path.ancestors.go, Path.ancestors]

section Modules

variable {settings : Settings} {task : Task} {before after : Disk} {p root : Path}

/-- A directory without a name is the root of the disk. -/
lemma isDirectory_of_names_eq_nil {d : Disk} {p : Path} (hp : p.isAbsolute = true)
    (h : p.names = []) : d.isDirectory p = true := by
  have hfollow : d.follow true p = .ok (.node [] .directory) := by
    rw [Disk.follow, h, Disk.start_of_isAbsolute hp]
    rfl
  simp [Disk.isDirectory, Disk.nodeAt?, hfollow]

/-- Only a directory has a marker in it, unless the marker has no name. -/
lemma isDirectory_of_isModuleRoot {d : Disk} {marker : String} (hm : IsRelativeMarker marker)
    (hnames : (Path.ofString marker).names ≠ []) (h : isModuleRoot d marker p = true) :
    d.isDirectory p = true := by
  obtain ⟨place, content, hfollow⟩ := isModuleRoot_iff.mp h
  rw [child_eq hm] at hfollow
  exact Disk.isDirectory_above hnames hfollow

lemma isFile_of_isDirectory {d : Disk} (h : d.isDirectory p = true) : d.isFile p = false := by
  rw [Disk.isDirectory, beq_iff_eq] at h
  simp [Disk.isFile, h]

variable (hu : Undisturbed settings task before after) (ha : before.Adds after)
  (hhere : ".." ∉ before.here) (hm : IsRelativeMarker settings.markerFile)

include hu ha in
lemma Undisturbed.resolvePath_eq (p : Path) : resolvePath after p = resolvePath before p := by
  unfold resolvePath
  rw [ha.resolve?_eq hu.circles]

include hu ha in
lemma Undisturbed.isModuleRoot_eq {directory : Path}
    (h : IsMarkerSite before settings directory) :
    isModuleRoot after settings.markerFile directory =
      isModuleRoot before settings.markerFile directory :=
  ha.keeps.isFile_eq (hu.markers directory h)

include hu ha in
lemma Undisturbed.nearest?_eq {start : Path} (hp : start.IsPlain) :
    nearest? start (isModuleRoot after settings.markerFile) =
      nearest? start (isModuleRoot before settings.markerFile) :=
  List.find?_congr fun _ hq => hu.isModuleRoot_eq ha (Or.inl (hp.of_mem hq))

include hu ha hhere hm in
/-- **A path belongs to the root it belonged to.**

**Proof sketch.** Where the path has become a directory, the search begins there and no longer above
it. But no marker came into being in the new directory. -/
theorem Undisturbed.moduleRoot_eq (p : Path) :
    moduleRoot after settings.markerFile p = moduleRoot before settings.markerFile p := by
  unfold moduleRoot
  rw [hu.resolvePath_eq ha]
  cases hstart : resolvePath before p with
  | error f => simp only [Except.bind]
  | ok start =>
    have hplain : start.IsPlain :=
      Disk.isPlain_of_resolve? hhere (resolvePath_eq_ok_iff.mp hstart)
    simp only [Except.bind]
    split
    · rfl
    suffices hnearest : nearest? (if after.isDirectory start then start else start.parent)
        (isModuleRoot after settings.markerFile) =
        nearest? (if before.isDirectory start then start else start.parent)
          (isModuleRoot before settings.markerFile) by
      rw [hnearest]
    cases hb : before.isDirectory start with
    | true =>
      have hafter : after.isDirectory start = true := by
        rw [Disk.isDirectory, beq_iff_eq] at hb ⊢
        exact ha.keeps.nodeAt?_eq_some hb
      rw [hafter]
      exact hu.nearest?_eq ha hplain
    | false =>
      cases hafter : after.isDirectory start with
      | false => exact hu.nearest?_eq ha hplain.parent
      | true =>
        -- the path has become a directory
        have hnone : isModuleRoot after settings.markerFile start = false := by
          by_contra hroot
          rw [Bool.not_eq_false] at hroot
          by_cases hnames : (Path.ofString settings.markerFile).names = []
          · have hfile : after.isFile start = true := by
              rwa [isModuleRoot, child_eq hm, hnames, List.append_nil] at hroot
            rw [isFile_of_isDirectory hafter] at hfile
            cases hfile
          · rw [hu.isModuleRoot_eq ha (Or.inl hplain)] at hroot
            rw [isDirectory_of_isModuleRoot hm hnames hroot] at hb
            cases hb
        have hne : start.names ≠ [] := fun he => by
          rw [isDirectory_of_names_eq_nil hplain.isAbsolute he] at hb
          cases hb
        rw [if_pos rfl, if_neg (by simp), nearest?, Path.ancestors_of_ne_nil hne,
          List.find?_cons_of_neg (by simp [hnone])]
        exact hu.nearest?_eq ha hplain.parent

/-- What has a marker in it has the manifest it had. -/
lemma manifest_eq (hk : before.Extends after)
    (h : isModuleRoot before settings.markerFile root = true) :
    manifest after settings root = manifest before settings root := by
  obtain ⟨place, content, hfollow⟩ := isModuleRoot_iff.mp h
  have hread : before.read (root.child settings.markerFile) = .ok content := by
    simp [Disk.read, hfollow]
  unfold manifest readText
  rw [hread, hk.read_eq_ok hread]

lemma parent_eq (hk : before.Extends after) {m : Module}
    (h : isModuleRoot before settings.markerFile m.root = true) :
    m.parent after settings = m.parent before settings := by
  unfold Module.parent
  rw [manifest_eq hk h]

lemma isModuleRoot_of_moduleAt {d : Disk} {m : Module} (h : moduleAt d settings p = .ok m) :
    isModuleRoot d settings.markerFile m.root = true :=
  (isModuleRoot_of_moduleRoot (moduleRoot_of_moduleAt h)).2

include hu ha hhere hm in
/-- **A path belongs to the module it belonged to.** -/
theorem Undisturbed.moduleAt_eq (p : Path) :
    moduleAt after settings p = moduleAt before settings p := by
  unfold moduleAt
  rw [hu.moduleRoot_eq ha hhere hm]
  cases hroot : moduleRoot before settings.markerFile p with
  | error f => simp only [bind, Except.bind]
  | ok root =>
    simp only [bind, Except.bind]
    rw [manifest_eq ha.keeps (isModuleRoot_of_moduleRoot hroot).2]

include hu ha hhere in
lemma Undisturbed.installed_eq {name : String} (hname : IsStatedName before settings name)
    (directory : Path) :
    installed after settings.markerFile name directory =
      installed before settings.markerFile name directory := by
  unfold installed
  rw [hu.resolvePath_eq ha]
  cases hbase : resolvePath before directory with
  | error f => simp only [bind, Except.bind]
  | ok base =>
    have hplain : base.IsPlain :=
      Disk.isPlain_of_resolve? hhere (resolvePath_eq_ok_iff.mp hbase)
    simp only [bind, Except.bind]
    split
    · rw [hu.resolvePath_eq ha]
      cases hroot : resolvePath before (base.child name) with
      | error f => simp only
      | ok root =>
        have hroot' : root.IsPlain :=
          Disk.isPlain_of_resolve? hhere (resolvePath_eq_ok_iff.mp hroot)
        dsimp only
        rw [hu.isModuleRoot_eq ha (Or.inl hroot')]
    · have hnearest : nearest? base (fun above =>
            isModuleRoot after settings.markerFile (installedIn name above)) =
          nearest? base (fun above =>
            isModuleRoot before settings.markerFile (installedIn name above)) :=
        List.find?_congr fun above habove =>
          hu.isModuleRoot_eq ha (Or.inr ⟨name, above, hname, hplain.of_mem habove, rfl⟩)
      rw [hnearest]

include hu ha hhere in
lemma Undisturbed.parentRoot_eq {m : Module}
    (h : isModuleRoot before settings.markerFile m.root = true) :
    m.parentRoot after settings = m.parentRoot before settings := by
  unfold Module.parentRoot
  rw [parent_eq ha.keeps h]
  cases hv : m.parent before settings with
  | error f => simp only [bind, Except.bind]
  | ok v =>
    simp only [bind, Except.bind]
    split
    · rfl
    · split
      · rfl
      · rename_i name hname
        rw [hu.installed_eq ha hhere (Or.inr ⟨m, v, hv, hname⟩)]

include hu ha hhere in
lemma Undisturbed.fallbackTrail_eq (target : Path) {names : List String}
    (hnames : ∀ name ∈ names, name ∈ settings.fallbackModules) (seen : List Path) :
    fallbackTrail after settings target names seen =
      fallbackTrail before settings target names seen := by
  induction names generalizing seen with
  | nil => rfl
  | cons name rest ih =>
    rw [List.forall_mem_cons] at hnames
    have hrest := ih hnames.2
    unfold fallbackTrail
    rw [hu.installed_eq ha hhere (Or.inl hnames.1)]
    split
    · rfl
    · rw [hrest]
    · rw [hrest, hrest]

include hu ha hhere hm in
lemma Undisturbed.parentTrail_eq (behind : List Path → Trail) (fuel : Nat) {m : Module}
    (h : isModuleRoot before settings.markerFile m.root = true) (seen : List Path) :
    parentTrail after settings behind fuel m seen =
      parentTrail before settings behind fuel m seen := by
  induction fuel generalizing m seen with
  | zero => rfl
  | succ fuel ih =>
    unfold parentTrail
    rw [hu.parentRoot_eq ha hhere h]
    split
    · rfl
    · rfl
    · rename_i p notes _
      rw [hu.moduleAt_eq ha hhere hm]
      cases hnext : moduleAt before settings p with
      | error f => rfl
      | ok next =>
        dsimp only
        rw [ih (isModuleRoot_of_moduleAt hnext)]

include hu ha hhere hm in
/-- **The modules that are searched are those that were searched.** -/
theorem Undisturbed.candidates_eq (target : Path) :
    candidates after settings target = candidates before settings target := by
  unfold candidates
  rw [hu.moduleAt_eq ha hhere hm]
  cases htarget : moduleAt before settings target with
  | error f => rfl
  | ok m =>
    have hbehind : fallbackTrail after settings m.root settings.fallbackModules =
        fallbackTrail before settings m.root settings.fallbackModules :=
      funext fun seen => hu.fallbackTrail_eq ha hhere m.root (fun _ hn => hn) seen
    dsimp only
    rw [hbehind, hu.parentTrail_eq ha hhere hm _ _ (isModuleRoot_of_moduleAt htarget)]

/-! ## The resource -/

lemma resourceIn?_eq (hk : before.Extends after) {type : ResourceType} {name : String}
    (h : ∀ p ∈ lookedAt settings root type name, ¬ before.Gains after p) :
    resourceIn? after settings root type name = resourceIn? before settings root type name := by
  unfold lookedAt at h
  unfold resourceIn?
  dsimp only at h ⊢
  split
  · rename_i hquery
    rw [if_pos hquery] at h
    exact List.find?_congr fun p hp => hk.isFile_eq (h p hp)
  · rename_i hquery
    rw [if_neg hquery] at h
    rw [hk.isDirectory_eq (h _ (List.mem_singleton_self _))]

lemma searchTrail_eq (hk : before.Extends after) {type : ResourceType} {name : String} {t : Trail}
    (h : ∀ root ∈ (t.upTo (defines before settings type name)).roots,
      ∀ p ∈ lookedAt settings root type name, ¬ before.Gains after p) (searched : List Path) :
    searchTrail after settings type name t searched =
      searchTrail before settings type name t searched := by
  induction t generalizing searched with
  | done => rfl
  | failed f => rfl
  | note n rest ih =>
    rw [searchTrail, searchTrail, ih h]
  | root p rest ih =>
    rw [Trail.upTo, Trail.roots, List.forall_mem_cons] at h
    rw [searchTrail, searchTrail, resourceIn?_eq hk h.1]
    cases hp : resourceIn? before settings p type name with
    | some found => rfl
    | none =>
      rw [resourceIn?_eq_none.mp hp] at h
      exact ih h.2 _

include hu in
lemma Undisturbed.not_gains {target : Module} (ht : moduleAt before settings task.target = .ok target)
    (hroot : root ∈ searchedRoots before settings task target.root)
    (hp : p ∈ lookedAt settings root task.type task.name) : ¬ before.Gains after p := by
  have hnot := hu.resource target ht root hroot p hp [] (by simp)
  rwa [List.append_nil] at hnot

include hu ha hhere hm in
/-- **The resource lies where it lay.** -/
theorem Undisturbed.locate_eq {target : Module}
    (ht : moduleAt before settings task.target = .ok target) :
    locate after settings task.type task.name target.root task.source =
      locate before settings task.type task.name target.root task.source := by
  have hnot : ∀ root ∈ searchedRoots before settings task target.root,
      ∀ p ∈ lookedAt settings root task.type task.name, ¬ before.Gains after p :=
    fun root hroot p hp => hu.not_gains ht hroot hp
  unfold searchedRoots at hnot
  unfold locate
  cases hsource : task.source with
  | none =>
    rw [hsource] at hnot
    dsimp only at hnot ⊢
    rw [hu.candidates_eq ha hhere hm]
    exact searchTrail_eq ha.keeps hnot []
  | some p =>
    rw [hsource] at hnot
    dsimp only at hnot ⊢
    rw [hu.moduleRoot_eq ha hhere hm]
    cases hroot : moduleRoot before settings.markerFile p with
    | error f => rfl
    | ok root =>
      rw [hroot] at hnot
      refine searchTrail_eq ha.keeps (fun r hr => hnot r ?_) []
      have hupTo : (Trail.upTo (defines before settings task.type task.name)
          (.root root .done)).roots = [root] := by
        rw [Trail.upTo, Trail.roots]
        split <;> rfl
      rwa [hupTo] at hr

/-- What is found lies in a module that was searched, at a path at which it was looked for. -/
lemma exists_lookedAt {d : Disk} {target found : Path} (h :
    (locate d settings task.type task.name target task.source).2 = .ok found) :
    ∃ root ∈ searchedRoots d settings task target,
      found ∈ lookedAt settings root task.type task.name := by
  have hresource : ∀ root, resourceIn? d settings root task.type task.name = some found →
      found ∈ lookedAt settings root task.type task.name := by
    intro root hroot
    unfold resourceIn? at hroot
    unfold lookedAt
    dsimp only at hroot ⊢
    split
    · rename_i hquery
      rw [if_pos hquery] at hroot
      exact List.mem_of_find?_eq_some hroot
    · rename_i hquery
      rw [if_neg hquery] at hroot
      split at hroot
      · cases hroot
        exact List.mem_singleton_self _
      · cases hroot
  unfold locate at h
  unfold searchedRoots
  cases hsource : task.source with
  | none =>
    rw [hsource] at h
    dsimp only at h ⊢
    rw [← searchTrail_upTo] at h
    obtain ⟨earlier, winner, later, hroots, -, hwinner⟩ := searchTrail_ok h
    exact ⟨winner, by rw [hroots]; simp, hresource winner hwinner⟩
  | some p =>
    rw [hsource] at h
    dsimp only at h ⊢
    cases hroot : moduleRoot d settings.markerFile p with
    | error f => rw [hroot] at h; cases h
    | ok root =>
      rw [hroot] at h
      obtain ⟨earlier, winner, later, hroots, -, hwinner⟩ := searchTrail_ok h
      have hmem : winner ∈ (Trail.root root .done).roots := by rw [hroots]; simp
      exact ⟨winner, hmem, hresource winner hwinner⟩

/-- **A directory in which no path came into being holds the names that it held.** -/
lemma list_eq (ha : before.Adds after) {names : List String}
    (hnot : ∀ below, ".." ∉ below → ¬ before.Gains after ⟨p.root, p.names ++ below⟩)
    (h : before.list p = .ok names) : after.list p = .ok names := by
  unfold Disk.list at h
  split at h
  · cases h
  · rename_i place hfollow
    cases h
    rw [Disk.list, ha.keeps.follow_node hfollow]
    dsimp only
    rw [ha.namesIn_eq fun name hname hup hnone => ?_]
    -- what lies there now would have come into being
    by_contra hnow
    obtain ⟨node, hnode⟩ := Option.ne_none_iff_exists'.mp hnow
    have hlink : ∀ target, after.node? (place ++ [name]) ≠ some (.link target) := fun target hl => by
      rw [ha.node?_eq_link_iff, hnone] at hl
      cases hl
    refine hnot [name] (by simpa using Ne.symm hup) ⟨?_, ?_⟩
    · simp [Disk.exists, Disk.nodeAt?, Disk.follow_child hup (fun _ => by simp [hnone]) hfollow, Disk.endAt,
        hnone]
    · simp [Disk.exists, Disk.nodeAt?, Disk.follow_child hup (fun _ => hlink) (ha.keeps.follow_node hfollow),
        Disk.endAt, hnode]
  · cases h
  · cases h

/-- Source files that are listed in the order in which they are handled. -/
lemma fileList_of_pairwise {d : Disk} {type : ResourceType} {name : String} {source : Path}
    {files : List String} (htype : type ≠ .query)
    (h : (d.list source).map (fun names => names.filter (isSourceFile d settings source name)) =
      .ok files) (hsorted : files.Pairwise fun a b => precedes name a b) :
    fileList d settings type name source = .ok files := by
  unfold fileList
  rw [if_neg (by simpa using htype)]
  cases hlist : d.list source with
  | error fault => rw [hlist] at h; cases h
  | ok names =>
    rw [hlist] at h
    have hfiles : names.filter (isSourceFile d settings source name) = files := Except.ok.inj h
    dsimp only
    rw [hfiles, List.mergeSort_of_pairwise hsorted]

/-- **The files of the resource are those that it had.** -/
theorem fileList_eq (ha : before.Adds after) (hs : before.Sound) {type : ResourceType} {name : String}
    {files : List String}
    (hnot : ∀ below, ".." ∉ below → ¬ before.Gains after ⟨p.root, p.names ++ below⟩)
    (h : fileList before settings type name p = .ok files) :
    fileList after settings type name p = .ok files := by
  unfold fileList at h ⊢
  split
  · rename_i hquery
    rwa [if_pos hquery] at h
  · rename_i hquery
    rw [if_neg hquery] at h
    cases hlist : before.list p with
    | error fault => rw [hlist] at h; cases h
    | ok names =>
      rw [hlist] at h
      rw [list_eq ha hnot hlist]
      have hsource : ∀ n ∈ names, isSourceFile after settings p name n =
          isSourceFile before settings p name n := by
        intro n hn
        obtain ⟨hname, hup⟩ := hs.isName_of_list hlist n hn
        unfold isSourceFile
        rw [Path.child_of_isName hname, ha.keeps.isFile_eq (hnot [n] (by simpa using Ne.symm hup))]
      dsimp only at h ⊢
      rwa [List.filter_congr hsource]

end Modules

end ThemeOverride
