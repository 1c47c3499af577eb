import ThemeOverride.Module.Location
import ThemeOverride.Proofs.Disk.Rewrite
import ThemeOverride.Proofs.Module.Candidates

/-!
# The first module that defines a resource

A resource is taken from the first candidate that defines it, and what comes behind that candidate
has no say in it: neither the manifests of other modules, which need not even be readable, nor more
fallback modules.

## Main definitions

* `ThemeOverride.Trail.upTo` — a trail up to the first root that passes a test.
* `ThemeOverride.Rereads` — two disks that are read alike up to the manifests of some modules.

## Main results

* `ThemeOverride.searchTrail_upTo` — only the trail up to the module that is found matters.
* `ThemeOverride.candidates_upTo` — the trail up to that module is the same after the changes.
* `ThemeOverride.locate_first` — the first candidate in the order wins, and nothing behind it matters.
-/

namespace ThemeOverride

variable {d : Disk} {settings : Settings} {m current : Module} {type : ResourceType} {name : String}

/-! ## Searching a trail -/

namespace Trail

/-- A trail up to the first root that passes a test. -/
def upTo (stop : Path → Bool) : Trail → Trail
  | done => done
  | failed f => failed f
  | note n rest => note n (rest.upTo stop)
  | root p rest => root p (if stop p then done else rest.upTo stop)

variable {stop : Path → Bool} {t behind : Trail}

lemma upTo_notes (ns : List Note) (t : Trail) : (notes ns t).upTo stop = notes ns (t.upTo stop) := by
  induction ns with
  | nil => rfl
  | cons n ns ih => exact congrArg (note n) ih

lemma upTo_eq_self (h : ∀ p ∈ t.roots, stop p = false) : t.upTo stop = t := by
  induction t with
  | done => rfl
  | failed f => rfl
  | note n rest ih => exact congrArg (note n) (ih h)
  | root p rest ih =>
    rw [roots, List.forall_mem_cons] at h
    rw [upTo, h.1, ih h.2]
    rfl

/-- If no root passes up to the first that does, there is none. -/
lemma eq_of_upTo_eq {t' : Trail} (h : t'.upTo stop = t) (hnone : ∀ p ∈ t.roots, stop p = false) :
    t' = t := by
  subst h
  induction t' with
  | done => rfl
  | failed f => rfl
  | note n rest ih => exact congrArg (note n) (ih hnone)
  | root p rest ih =>
    have hp : stop p = false := hnone p List.mem_cons_self
    rw [upTo, hp] at hnone ⊢
    exact congrArg (root p) (ih fun q hq => hnone q (List.mem_cons_of_mem p hq))

/-- What lies behind the first root that passes does not matter. -/
lemma upTo_andThen (h : ∃ p ∈ t.roots, stop p = true) : (t.andThen behind).upTo stop = t.upTo stop := by
  induction t with
  | done => simp [roots] at h
  | failed f => rfl
  | note n rest ih => exact congrArg (note n) (ih h)
  | root p rest ih =>
    rw [andThen, upTo, upTo]
    cases hp : stop p with
    | true => rfl
    | false =>
      rw [roots, List.exists_mem_cons_iff, hp] at h
      rw [if_neg (by simp), if_neg (by simp), ih (h.resolve_left (by simp))]

lemma andThen_assoc (t u v : Trail) : (t.andThen u).andThen v = t.andThen (u.andThen v) := by
  induction t with
  | done => rfl
  | failed f => rfl
  | note n rest ih => exact congrArg (note n) ih
  | root p rest ih => exact congrArg (root p) ih

/-- A trail that is cut off at the first root that passes may be cut off before. -/
lemma upTo_upTo_andThen (t behind : Trail) :
    ((t.upTo stop).andThen behind).upTo stop = (t.andThen behind).upTo stop := by
  induction t with
  | done => rfl
  | failed f => rfl
  | note n rest ih => exact congrArg (note n) ih
  | root p rest ih =>
    rw [upTo, andThen, andThen, upTo, upTo]
    cases stop p with
    | true => rfl
    | false => simpa using ih

end Trail

/-- Whether a module defines a resource. -/
def defines (d : Disk) (settings : Settings) (type : ResourceType) (name : String) (root : Path) :
    Bool :=
  (resourceIn? d settings root type name).isSome

lemma resourceIn?_eq_none {root : Path} :
    resourceIn? d settings root type name = none ↔ defines d settings type name root = false := by
  simp [defines]

/-- **Only the trail up to the module that is found matters.** -/
lemma searchTrail_upTo (t : Trail) (searched : List Path) :
    searchTrail d settings type name (t.upTo (defines d settings type name)) searched =
      searchTrail d settings type name t searched := by
  induction t generalizing searched with
  | done => rfl
  | failed f => rfl
  | note n rest ih => rw [Trail.upTo, searchTrail, searchTrail, ih]
  | root p rest ih =>
    rw [Trail.upTo, searchTrail, searchTrail]
    cases hp : resourceIn? d settings p type name with
    | some found => rfl
    | none =>
      rw [resourceIn?_eq_none.mp hp]
      exact ih _

/-- What is found lies in the first module on the trail that defines the resource. -/
lemma searchTrail_ok {t : Trail} {searched : List Path} {found : Path}
    (h : (searchTrail d settings type name t searched).2 = .ok found) :
    ∃ before winner after, t.roots = before ++ winner :: after ∧
      (∀ p ∈ before, resourceIn? d settings p type name = none) ∧
      resourceIn? d settings winner type name = some found := by
  induction t generalizing searched with
  | done => cases h
  | failed f => cases h
  | note n rest ih => exact ih h
  | root p rest ih =>
    rw [searchTrail] at h
    split at h
    · rename_i here hhere
      cases h
      exact ⟨[], p, rest.roots, rfl, by simp, hhere⟩
    · rename_i hnone
      obtain ⟨before, winner, after, hroots, hbefore, hwinner⟩ := ih h
      refine ⟨p :: before, winner, after, by rw [Trail.roots, hroots]; rfl, ?_, hwinner⟩
      exact List.forall_mem_cons.mpr ⟨hnone, hbefore⟩

/-- If nothing is found, no module on the trail defines the resource, and all of them were searched
unless the trail fails. -/
lemma searchTrail_error {t : Trail} {searched : List Path} {f : Failure}
    (h : (searchTrail d settings type name t searched).2 = .error f) :
    (∀ p ∈ t.roots, resourceIn? d settings p type name = none) ∧
      t.failure?.getD (.resourceNotFound type.name name
        ((searched ++ t.roots).map Path.toString)) = f := by
  induction t generalizing searched with
  | done =>
    cases h
    simp [Trail.roots, Trail.failure?]
  | failed g =>
    cases h
    simp [Trail.roots, Trail.failure?]
  | note n rest ih => exact ih h
  | root p rest ih =>
    rw [searchTrail] at h
    split at h
    · cases h
    · rename_i hnone
      obtain ⟨hroots, hfailure⟩ := ih h
      refine ⟨List.forall_mem_cons.mpr ⟨hnone, hroots⟩, ?_⟩
      rwa [List.append_assoc] at hfailure

/-! ## Other contents -/

section Rewrite

variable (d : Disk) (change : Place → List UInt8 → List UInt8) (marker : String)

@[simp] lemma resolvePath_rewrite (p : Path) :
    resolvePath (d.rewrite change) p = resolvePath d p := by
  unfold resolvePath
  rw [Disk.resolve?_rewrite]

@[simp] lemma isModuleRoot_rewrite (p : Path) :
    isModuleRoot (d.rewrite change) marker p = isModuleRoot d marker p := by
  unfold isModuleRoot
  rw [Disk.isFile_rewrite]

@[simp] lemma moduleRoot_rewrite (p : Path) :
    moduleRoot (d.rewrite change) marker p = moduleRoot d marker p := by
  have hmarker : isModuleRoot (d.rewrite change) marker = isModuleRoot d marker :=
    funext fun q => isModuleRoot_rewrite d change marker q
  unfold moduleRoot
  simp only [resolvePath_rewrite, hmarker, Disk.isDirectory_rewrite]

@[simp] lemma installed_rewrite (name : String) (directory : Path) :
    installed (d.rewrite change) marker name directory = installed d marker name directory := by
  unfold installed nearest?
  simp only [resolvePath_rewrite, isModuleRoot_rewrite]

lemma resourceIn?_rewrite (settings : Settings) (fallbacks : List String) (root : Path)
    (type : ResourceType) (name : String) :
    resourceIn? (d.rewrite change) { settings with fallbackModules := fallbacks } root type name =
      resourceIn? d settings root type name := by
  have hfile : (d.rewrite change).isFile = d.isFile := funext fun p => d.isFile_rewrite change p
  unfold resourceIn?
  simp only [hfile, Disk.isDirectory_rewrite]

end Rewrite

/-- The manifest of a directory reads alike on two disks, at all paths to the directory. -/
def KeepsManifest (d d' : Disk) (marker : String) (p : Path) : Prop :=
  ∀ q, resolvePath d q = resolvePath d p → d'.read (q.child marker) = d.read (q.child marker)

section Keep

variable {change : Place → List UInt8 → List UInt8} {fallbacks : List String} {p root : Path}

lemma manifest_rewrite
    (hread : (d.rewrite change).read (root.child settings.markerFile) =
      d.read (root.child settings.markerFile)) :
    manifest (d.rewrite change) { settings with fallbackModules := fallbacks } root =
      manifest d settings root := by
  unfold manifest readText
  rw [hread]

lemma metadata_rewrite :
    metadata { settings with fallbackModules := fallbacks } = metadata settings := rfl

lemma moduleAt_rewrite
    (hread : ∀ root, moduleRoot d settings.markerFile p = .ok root →
      (d.rewrite change).read (root.child settings.markerFile) =
        d.read (root.child settings.markerFile)) :
    moduleAt (d.rewrite change) { settings with fallbackModules := fallbacks } p =
      moduleAt d settings p := by
  unfold moduleAt
  rw [moduleRoot_rewrite]
  cases hroot : moduleRoot d settings.markerFile p with
  | error f => simp only [bind, Except.bind]
  | ok root =>
    simp only [bind, Except.bind, manifest_rewrite (hread root hroot), metadata_rewrite]

lemma parentRoot_rewrite
    (hread : (d.rewrite change).read (m.root.child settings.markerFile) =
      d.read (m.root.child settings.markerFile)) :
    m.parentRoot (d.rewrite change) { settings with fallbackModules := fallbacks } =
      m.parentRoot d settings := by
  unfold Module.parentRoot Module.parent
  simp only [manifest_rewrite hread, installed_rewrite, metadata_rewrite]

/-- The manifest of a module is kept where that of a path to the module is kept. -/
lemma KeepsManifest.read_root {d' : Disk} {marker : String} (h : KeepsManifest d d' marker p)
    (hp : p.isAbsolute = true) (hmarker : isModuleRoot d marker p = true)
    (hroot : moduleRoot d marker p = .ok root) :
    d'.read (root.child marker) = d.read (root.child marker) := by
  by_cases hm : IsRelativeMarker marker
  · obtain ⟨hreal, place, rfl, hopen⟩ := moduleRoot_eq_resolvePath hm hp hmarker hroot
    exact h _ (by rw [hreal, resolvePath_eq_ok_iff, hopen.resolve?])
  · -- a marker of its own path is the manifest of all modules
    have habsolute : (Path.ofString marker).isAbsolute = true := by
      simpa [IsRelativeMarker] using hm
    have hchild : ∀ q : Path, q.child marker = Path.ofString marker := fun q => by
      simp [Path.child, Path.join, habsolute]
    have hread := h p rfl
    rwa [hchild] at hread ⊢

/-- The manifest of a parent is kept where that of its path is kept. -/
lemma KeepsManifest.read_parent {d' : Disk} {notes : List Note}
    (h : KeepsManifest d d' settings.markerFile p)
    (hparent : m.parentRoot d settings = .ok (some p, notes)) (root : Path)
    (hroot : moduleRoot d settings.markerFile p = .ok root) :
    d'.read (root.child settings.markerFile) = d.read (root.child settings.markerFile) := by
  obtain ⟨hp, hmarker, -⟩ := Module.parentRoot_eq_some hparent
  exact h.read_root hp hmarker hroot

variable {stop : Path → Bool} {seen : List Path} {t t' : Trail}

/-- **The walk is the same up to the first parent that passes**, if the manifests before it are
kept. -/
lemma ParentLoop.upTo (h : ParentLoop d settings (fun _ => .done) seen current t)
    (h' : ParentLoop (d.rewrite change) { settings with fallbackModules := fallbacks }
      (fun _ => .done) seen current t')
    (hcurrent : (d.rewrite change).read (current.root.child settings.markerFile) =
      d.read (current.root.child settings.markerFile))
    (hbefore : ∀ p ∈ t.roots.takeWhile (!stop ·),
      KeepsManifest d (d.rewrite change) settings.markerFile p) :
    t'.upTo stop = t.upTo stop := by
  induction h generalizing t' with
  | failed h => rw [h'.eq_failed ((parentRoot_rewrite hcurrent).trans h)]
  | orphan h => rw [h'.eq_notes ((parentRoot_rewrite hcurrent).trans h) (by simp)]
  | met h hseen => rw [h'.eq_notes ((parentRoot_rewrite hcurrent).trans h) (by simpa using hseen)]
  | @unread seen current p notes f h hnew hnext =>
    obtain ⟨rest, rfl, hrest⟩ := h'.exists_round ((parentRoot_rewrite hcurrent).trans h) hnew
    rw [Trail.upTo_notes, Trail.upTo_notes, Trail.upTo, Trail.upTo]
    cases hstop : stop p with
    | true => rfl
    | false =>
      rw [Trail.roots_notes, Trail.roots, List.takeWhile_cons_of_pos (by simp [hstop])] at hbefore
      have hread := (hbefore p List.mem_cons_self).read_parent h
      rw [moduleAt_rewrite hread, hnext] at hrest
      rw [hrest]
  | @round seen current next p notes rest' h hnew hnext _ ih =>
    obtain ⟨rest, rfl, hrest⟩ := h'.exists_round ((parentRoot_rewrite hcurrent).trans h) hnew
    rw [Trail.upTo_notes, Trail.upTo_notes, Trail.upTo, Trail.upTo]
    cases hstop : stop p with
    | true => rfl
    | false =>
      rw [Trail.roots_notes, Trail.roots, List.takeWhile_cons_of_pos (by simp [hstop]),
        List.forall_mem_cons] at hbefore
      have hread := hbefore.1.read_parent h
      rw [moduleAt_rewrite hread, hnext] at hrest
      rw [ih hrest (hread _ (moduleRoot_of_moduleAt hnext)) hbefore.2]

lemma searchTrail_rewrite (t : Trail) (searched : List Path) :
    searchTrail (d.rewrite change) { settings with fallbackModules := fallbacks } type name t searched =
      searchTrail d settings type name t searched := by
  induction t generalizing searched with
  | done => rfl
  | failed f => rfl
  | note n rest ih => rw [searchTrail, searchTrail, ih]
  | root p rest ih => rw [searchTrail, searchTrail, resourceIn?_rewrite, ih]

lemma fallbackTrail_rewrite (target : Path) (names : List String) (seen : List Path) :
    fallbackTrail (d.rewrite change) { settings with fallbackModules := fallbacks } target names seen =
      fallbackTrail d settings target names seen := by
  induction names generalizing seen with
  | nil => rfl
  | cons name rest ih =>
    unfold fallbackTrail
    simp only [installed_rewrite, ih]

/-- More fallback modules come behind the others. -/
lemma fallbackTrail_append (target : Path) (names more : List String) (seen : List Path) :
    ∃ behind, fallbackTrail d settings target (names ++ more) seen =
      (fallbackTrail d settings target names seen).andThen behind := by
  induction names generalizing seen with
  | nil => exact ⟨_, rfl⟩
  | cons name rest ih =>
    rw [List.cons_append, fallbackTrail, fallbackTrail]
    cases installed d settings.markerFile name target with
    | error f => exact ⟨.done, rfl⟩
    | ok found =>
      obtain ⟨found?, notes⟩ := found
      cases found? with
      | none =>
        obtain ⟨behind, hbehind⟩ := ih seen
        exact ⟨behind, by simp [hbehind]⟩
      | some p =>
        by_cases hp : p ∈ seen
        · obtain ⟨behind, hbehind⟩ := ih seen
          exact ⟨behind, by simp [hp, hbehind]⟩
        · obtain ⟨behind, hbehind⟩ := ih (p :: seen)
          exact ⟨behind, by simp [hp, hbehind, Trail.andThen]⟩

/-- **The candidates are the same up to the first that passes**, if the manifests of the target and of
the candidates before it are kept. -/
theorem candidates_upTo {target : Path} (more : List String)
    (h : moduleAt d settings target = .ok m)
    (hstop : ∃ p ∈ (candidates d settings target).roots, stop p = true)
    (hkeep : ∀ p ∈ m.root :: (candidates d settings target).roots.takeWhile (!stop ·),
      KeepsManifest d (d.rewrite change) settings.markerFile p) :
    (candidates (d.rewrite change)
        { settings with fallbackModules := settings.fallbackModules ++ more } target).upTo stop =
      (candidates d settings target).upTo stop := by
  have hread : (d.rewrite change).read (m.root.child settings.markerFile) =
      d.read (m.root.child settings.markerFile) := hkeep _ List.mem_cons_self _ rfl
  have h' : moduleAt (d.rewrite change)
      { settings with fallbackModules := settings.fallbackModules ++ more } target = .ok m := by
    rw [moduleAt_rewrite fun root hroot => ?_, h]
    rw [moduleRoot_of_moduleAt h] at hroot
    cases hroot
    exact hread
  have hparents : (parentsTrail (d.rewrite change)
      { settings with fallbackModules := settings.fallbackModules ++ more } m).upTo stop =
      (parentsTrail d settings m).upTo stop := by
    refine (parentLoop_parentsTrail h).upTo (parentLoop_parentsTrail h') hread fun p hp => ?_
    refine hkeep p (List.mem_cons_of_mem _ ?_)
    obtain ⟨fallbacks, hroots, -⟩ := candidates_roots h
    rw [hroots]
    rw [List.takeWhile_append]
    split
    · exact List.mem_append_left _ ((List.takeWhile_subset _) hp)
    · exact hp
  rw [candidates_eq h, candidates_eq h', ← Trail.upTo_upTo_andThen, hparents,
    Trail.upTo_upTo_andThen]
  by_cases hfound : ∃ p ∈ (parentsTrail d settings m).roots, stop p = true
  · rw [Trail.upTo_andThen hfound, Trail.upTo_andThen hfound]
  · -- no parent passes, so that the fallback modules are looked up behind the same parents
    have hsame : parentsTrail (d.rewrite change)
        { settings with fallbackModules := settings.fallbackModules ++ more } m =
        parentsTrail d settings m := by
      have hnone : ∀ p ∈ (parentsTrail d settings m).roots, stop p = false := by
        simpa using hfound
      rw [Trail.upTo_eq_self hnone] at hparents
      exact Trail.eq_of_upTo_eq hparents hnone
    rw [hsame, fallbackTrail_rewrite]
    obtain ⟨behind, hbehind⟩ := fallbackTrail_append (d := d) m.root settings.fallbackModules more
      ((parentsTrail d settings m).roots.reverse ++ [m.root])
    rw [candidates_eq h] at hstop
    rw [hbehind, ← Trail.andThen_assoc, Trail.upTo_andThen hstop]

end Keep

/-! ## Failures on the way -/

/-- A step that does not fail by finding no resource. -/
def NeverUnfound {α : Type*} (x : Except Failure α) : Prop :=
  ∀ type name searched, x ≠ .error (.resourceNotFound type name searched)

namespace NeverUnfound

variable {α β : Type*} {x : Except Failure α} {g : α → Except Failure β}

lemma ok (a : α) : NeverUnfound (.ok a) := fun _ _ _ h => by cases h

lemma bind (hx : NeverUnfound x) (hg : ∀ a, NeverUnfound (g a)) : NeverUnfound (x.bind g) := by
  cases x with
  | ok a => exact hg a
  | error f => exact fun type name searched h => hx type name searched (by cases h; rfl)

lemma resolvePath (d : Disk) (p : Path) : NeverUnfound (resolvePath d p) := by
  unfold ThemeOverride.resolvePath
  split
  · exact fun _ _ _ h => by cases h
  · exact .ok _

lemma moduleRoot (d : Disk) (marker : String) (p : Path) : NeverUnfound (moduleRoot d marker p) := by
  refine (resolvePath d p).bind fun start => ?_
  split
  · exact fun _ _ _ h => by cases h
  · dsimp only
    split
    · exact .ok _
    · exact fun _ _ _ h => by cases h

lemma manifest (d : Disk) (settings : Settings) (root : Path) :
    NeverUnfound (manifest d settings root) := by
  refine bind ?_ fun s => ?_
  · unfold readText
    split
    · exact fun _ _ _ h => by cases h
    · split
      · exact fun _ _ _ h => by cases h
      · exact .ok _
  · split
    · exact fun _ _ _ h => by cases h
    · exact .ok _

lemma fieldOf (v : Value) (key : String) : NeverUnfound (fieldOf v key) := by
  unfold ThemeOverride.fieldOf
  split
  · exact .ok _
  · exact fun _ _ _ h => by cases h

lemma metadata (settings : Settings) (v : Value) : NeverUnfound (metadata settings v) := by
  have hfield := fieldOf v settings.metadataKey
  unfold ThemeOverride.metadata
  cases hv : ThemeOverride.fieldOf v settings.metadataKey with
  | ok w => exact .ok _
  | error f =>
    rw [hv] at hfield
    exact fun type name searched h => hfield type name searched (by cases h; rfl)

lemma moduleAt (d : Disk) (settings : Settings) (p : Path) : NeverUnfound (moduleAt d settings p) :=
  (moduleRoot d settings.markerFile p).bind fun root =>
    (manifest d settings root).bind fun m => (metadata settings m).bind fun about =>
      (fieldOf m "name").bind fun _ => (fieldOf about "type").bind fun _ =>
        (fieldOf about settings.aliasKey).bind fun _ => .ok _

lemma installed (d : Disk) (marker name : String) (directory : Path) :
    NeverUnfound (installed d marker name directory) := by
  refine (resolvePath d directory).bind fun base => ?_
  split
  · exact (resolvePath d _).bind fun _ => .ok _
  · split
    · exact .ok _
    · exact .ok _

lemma parentRoot (d : Disk) (settings : Settings) (m : Module) :
    NeverUnfound (m.parentRoot d settings) := by
  have hparent : NeverUnfound (m.parent d settings) :=
    (manifest d settings m.root).bind fun v => (metadata settings v).bind fun about =>
      fieldOf about settings.parentKey
  refine hparent.bind fun v => ?_
  split
  · exact .ok _
  · split
    · exact fun _ _ _ h => by cases h
    · refine (installed d settings.markerFile _ m.root).bind fun found => ?_
      obtain ⟨found?, notes⟩ := found
      cases found? with
      | none => exact .ok _
      | some p => exact .ok _

end NeverUnfound

/-- **The candidates never fail by finding no resource.** -/
lemma failure?_candidates (d : Disk) (settings : Settings) (target : Path) (type name : String)
    (searched : List String) :
    (candidates d settings target).failure? ≠ some (.resourceNotFound type name searched) := by
  have hfallback : ∀ names seen p, (fallbackTrail d settings p names seen).failure? ≠
      some (.resourceNotFound type name searched) := by
    intro names
    induction names with
    | nil => intro seen p h; cases h
    | cons n rest ih =>
      intro seen p
      have hnever := NeverUnfound.installed d settings.markerFile n p
      rw [fallbackTrail]
      split
      · rename_i f hf
        exact fun h => hnever type name searched (by cases h; exact hf)
      · rw [Trail.failure?_notes]
        exact ih seen p
      · rw [Trail.failure?_notes]
        split
        · exact ih seen p
        · exact ih _ p
  have hparents : ∀ {seen m t}, ParentLoop d settings (fun _ => .done) seen m t →
      t.failure? ≠ some (.resourceNotFound type name searched) := by
    intro seen m t hloop
    induction hloop with
    | failed h =>
      exact fun hf => NeverUnfound.parentRoot d settings _ type name searched (by cases hf; exact h)
    | orphan h => simp [Trail.failure?]
    | met h => simp [Trail.failure?]
    | unread h hnew hnext =>
      rw [Trail.failure?_notes]
      exact fun hf => NeverUnfound.moduleAt d settings _ type name searched (by cases hf; exact hnext)
    | round h hnew hnext _ ih => rwa [Trail.failure?_notes]
  cases hm : moduleAt d settings target with
  | error f =>
    have hcandidates : candidates d settings target = .failed f := by simp only [candidates, hm]
    rw [hcandidates]
    exact fun hf => NeverUnfound.moduleAt d settings target type name searched (by cases hf; exact hm)
  | ok m =>
    rw [candidates_eq hm]
    cases hf : (parentsTrail d settings m).failure? with
    | some f =>
      rw [Trail.andThen_of_failure hf]
      exact hparents (parentLoop_parentsTrail hm)
    | none =>
      rw [Trail.failure?_andThen hf]
      exact hfallback _ _ _

/-! ## The first candidate wins -/

/-- On another disk, the only manifests that read differently are those of other directories. -/
def SparesManifests (d d' : Disk) (marker : String) (roots : List Path) : Prop :=
  ∀ q, d'.read (q.child marker) ≠ d.read (q.child marker) →
    ∀ p ∈ roots, resolvePath d q ≠ resolvePath d p

lemma SparesManifests.keeps {d d' : Disk} {marker : String} {roots : List Path} {p : Path}
    (h : SparesManifests d d' marker roots) (hp : p ∈ roots) : KeepsManifest d d' marker p :=
  fun q hq => by_contra fun hread => h q hread p hp hq

/-- If the manifests of some modules are files that keep their contents, they are spared. Only a
manifest that several modules share through links could not be changed for one of them alone. -/
lemma sparesManifests_of_place {change : Place → List UInt8 → List UInt8} {marker : String}
    {roots : List Path} (hm : IsRelativeMarker marker) (hhere : d.IsOpen d.here)
    (hroots : ∀ p ∈ roots, p.isAbsolute = true ∧ ∃ place content,
      d.follow true (p.child marker) = .ok (.node place (.file content)) ∧
        change place content = content) :
    SparesManifests d (d.rewrite change) marker roots := by
  intro q hread p hp hsame
  refine hread (d.read_rewrite_eq change fun place content hq => ?_)
  obtain ⟨habsolute, place', content', hfollow, hkeep⟩ := hroots p hp
  have hstart : d.IsOpen (d.start q) := by
    unfold Disk.start
    split
    · exact .nil d
    · exact hhere
  rw [child_eq hm] at hq hfollow
  obtain ⟨within, hresolve, -, hbelow⟩ := Disk.exists_resolve?_of_follow hstart hq
  obtain ⟨within', hresolve', -, hbelow'⟩ :=
    Disk.exists_resolve?_of_follow (Disk.isOpen_start habsolute) hfollow
  rw [← resolvePath_eq_ok_iff] at hresolve hresolve'
  rw [hresolve', hresolve] at hsame
  cases hsame
  rw [hbelow] at hbelow'
  cases hbelow'
  exact hkeep

/-- What is found stays so if what is read differently comes behind it. -/
lemma locate_rewrite {change : Place → List UInt8 → List UInt8} {target winner found : Path}
    {before after : List Path} (more : List String) (h : moduleAt d settings target = .ok m)
    (hroots : (candidates d settings target).roots = before ++ winner :: after)
    (hbefore : ∀ p ∈ before, resourceIn? d settings p type name = none)
    (hwinner : resourceIn? d settings winner type name = some found)
    (hspares : SparesManifests d (d.rewrite change) settings.markerFile (m.root :: before)) :
    locate (d.rewrite change)
        { settings with fallbackModules := settings.fallbackModules ++ more } type name target none =
      locate d settings type name target none := by
  have hstop : defines d settings type name winner = true := by simp [defines, hwinner]
  have htake : (candidates d settings target).roots.takeWhile (!defines d settings type name ·) =
      before := by
    have hskip : ∀ p ∈ before, (!defines d settings type name p) = true := fun p hp => by
      simp [resourceIn?_eq_none.mp (hbefore p hp)]
    rw [hroots, List.takeWhile_append_of_pos hskip, List.takeWhile_cons_of_neg (by simp [hstop]),
      List.append_nil]
  have hupTo := candidates_upTo more h ⟨winner, by simp [hroots], hstop⟩
    (fun p hp => hspares.keeps (by rwa [htake] at hp))
  calc locate (d.rewrite change)
        { settings with fallbackModules := settings.fallbackModules ++ more } type name target none
      = searchTrail d settings type name (candidates (d.rewrite change)
          { settings with fallbackModules := settings.fallbackModules ++ more } target) [] :=
        searchTrail_rewrite _ _
    _ = searchTrail d settings type name (candidates d settings target) [] := by
        rw [← searchTrail_upTo, hupTo, searchTrail_upTo]

/-- **The first candidate that defines the resource wins, and nothing behind it matters.** The
candidates come in the order of the walk from parent to parent, and behind them the fallback modules.
If the resource is found, it is where the first of them has it that defines it, and it is found there
with the same notes if files get other contents and fallback modules are added, as long as the
manifests of the target and of the candidates before the winner are read as they were. If it is not
found, all candidates were searched. If a source is given, its module alone is searched. -/
theorem locate_first (d : Disk) (settings : Settings) (type : ResourceType) (name : String)
    (target : Path) :
    (∀ m, moduleAt d settings target = .ok m →
      ParentLoop d settings (fun _ => .done) [m.root] m (parentsTrail d settings m) ∧
      ∃ fallbacks,
        (candidates d settings target).roots = (parentsTrail d settings m).roots ++ fallbacks ∧
        fallbacks <+: fallbackPaths d settings m ∧
        ((candidates d settings target).failure? = none → fallbacks = fallbackPaths d settings m)) ∧
    (∀ found, (locate d settings type name target none).2 = .ok found →
      ∃ m before winner after, moduleAt d settings target = .ok m ∧
        (candidates d settings target).roots = before ++ winner :: after ∧
        (∀ p ∈ before, resourceIn? d settings p type name = none) ∧
        resourceIn? d settings winner type name = some found ∧
        ∀ change more,
          SparesManifests d (d.rewrite change) settings.markerFile (m.root :: before) →
          locate (d.rewrite change)
              { settings with fallbackModules := settings.fallbackModules ++ more } type name target
              none =
            locate d settings type name target none) ∧
    (∀ typeName resource searched,
      (locate d settings type name target none).2 =
          .error (.resourceNotFound typeName resource searched) →
        typeName = type.name ∧ resource = name ∧
        (candidates d settings target).failure? = none ∧
        (∀ p ∈ (candidates d settings target).roots, resourceIn? d settings p type name = none) ∧
        searched = (candidates d settings target).roots.map Path.toString) ∧
    ∀ source, (locate d settings type name target (some source)).2 =
      (moduleRoot d settings.markerFile source).bind fun root =>
        match resourceIn? d settings root type name with
        | some found => .ok found
        | none => .error (.resourceNotFound type.name name [root.toString]) := by
  refine ⟨fun m hm => ⟨parentLoop_parentsTrail hm, candidates_roots hm⟩, fun found hfound => ?_,
    fun typeName resource searched hnone => ?_, fun source => ?_⟩
  · obtain ⟨m, hm⟩ : ∃ m, moduleAt d settings target = .ok m := by
      cases hm : moduleAt d settings target with
      | ok m => exact ⟨m, rfl⟩
      | error f =>
        have hcandidates : candidates d settings target = .failed f := by simp only [candidates, hm]
        rw [locate, hcandidates] at hfound
        cases hfound
    obtain ⟨before, winner, after, hroots, hbefore, hwinner⟩ := searchTrail_ok hfound
    refine ⟨m, before, winner, after, hm, hroots, hbefore, hwinner, fun change more hspares => ?_⟩
    exact locate_rewrite more hm hroots hbefore hwinner hspares
  · obtain ⟨hroots, hfailure⟩ := searchTrail_error hnone
    cases hf : (candidates d settings target).failure? with
    | some f =>
      rw [hf] at hfailure
      exact absurd (hf.trans (congrArg some hfailure)) (failure?_candidates d settings target _ _ _)
    | none =>
      rw [hf] at hfailure
      cases hfailure
      exact ⟨rfl, rfl, rfl, hroots, rfl⟩
  · unfold locate
    dsimp only
    cases moduleRoot d settings.markerFile source with
    | error f => rfl
    | ok root =>
      simp only [Except.bind, searchTrail]
      cases resourceIn? d settings root type name <;> rfl

/-- A module whose parent defines a component, and has a parent of its own. -/
def Disk.twoParents : Disk where
  entries :=
    [(["t"], .directory), (["t", "package.json"], .file (Text.encode
        "\x7b\"scandipwa\": \x7b\"parentTheme\": \"a\"\x7d\x7d")),
     (["t", "node_modules"], .directory), (["t", "node_modules", "a"], .directory),
     (["t", "node_modules", "a", "package.json"], .file (Text.encode
        "\x7b\"scandipwa\": \x7b\"parentTheme\": \"c\"\x7d\x7d")),
     (["t", "node_modules", "a", "src"], .directory),
     (["t", "node_modules", "a", "src", "component"], .directory),
     (["t", "node_modules", "a", "src", "component", "X"], .directory),
     (["t", "node_modules", "c"], .directory),
     (["t", "node_modules", "c", "package.json"], .file (Text.encode "\x7b\x7d"))]

/-- All files but the manifest of the target are broken. -/
def breakParents (place : Place) (content : List UInt8) : List UInt8 :=
  if place = ["t", "package.json"] then content else Text.encode "\x7b"

/-- The component is found in the first parent, though the manifest of that parent is broken and a
fallback module is added. -/
theorem locate_first_twoParents :
    (manifest (Disk.twoParents.rewrite breakParents) {} (.ofString "/t/node_modules/a")).isOk = false ∧
    (locate Disk.twoParents {} .component "X" (.ofString "/t") none).2 =
      .ok (.ofString "/t/node_modules/a/src/component/X") ∧
    locate (Disk.twoParents.rewrite breakParents)
        { fallbackModules := ["@scandipwa/scandipwa"] ++ ["c"] } .component "X" (.ofString "/t") none =
      locate Disk.twoParents {} .component "X" (.ofString "/t") none := by
  have hfound : (locate Disk.twoParents {} .component "X" (.ofString "/t") none).2 =
      .ok (.ofString "/t/node_modules/a/src/component/X") := by decide +kernel
  refine ⟨by decide +kernel, hfound, ?_⟩
  obtain ⟨m, before, winner, after, hm, hroots, hbefore, -, hsame⟩ :=
    (locate_first Disk.twoParents {} .component "X" (.ofString "/t")).2.1 _ hfound
  have hcandidates : (candidates Disk.twoParents {} (.ofString "/t")).roots =
      [.ofString "/t/node_modules/a", .ofString "/t/node_modules/c"] := by decide +kernel
  have htarget : m.root = .ofString "/t" := by
    have hroot := moduleRoot_of_moduleAt hm
    rw [show moduleRoot Disk.twoParents "package.json" (.ofString "/t") = .ok (.ofString "/t") by
      decide +kernel] at hroot
    exact (Except.ok.inj hroot).symm
  obtain rfl : before = [] := by
    cases before with
    | nil => rfl
    | cons p rest =>
      rw [hcandidates, List.cons_append, List.cons.injEq] at hroots
      have hnone := hbefore p List.mem_cons_self
      rw [← hroots.1] at hnone
      exact absurd hnone (by decide +kernel)
  refine hsame breakParents ["c"] (sparesManifests_of_place (by decide) (.nil _) ?_)
  intro p hp
  obtain rfl : p = .ofString "/t" := by rwa [htarget, List.mem_singleton] at hp
  exact ⟨by decide, ["t", "package.json"],
    Text.encode "\x7b\"scandipwa\": \x7b\"parentTheme\": \"a\"\x7d\x7d", by decide +kernel, rfl⟩

end ThemeOverride
