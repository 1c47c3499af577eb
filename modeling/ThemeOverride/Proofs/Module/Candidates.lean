import ThemeOverride.Proofs.Module.ParentWalk

/-!
# The order of the candidates

The modules that are searched are the parents, in the order in which the walk meets them, and then
the fallback modules that were not met before, in the order of the settings. No path is among them
twice, nor is the root of the target.

A path in a directory `node_modules` is compared as it is, though, and one that goes through a link
may lead to a directory that was met at another path. This can only happen at the end of the walk,
where the parent of such a directory would have been met already, and among the fallback modules.

## Main definitions

* `ThemeOverride.Trail.andThen` — a trail behind another, unless that fails.
* `ThemeOverride.parentsTrail` — the trail of the parents alone.
* `ThemeOverride.newPaths` — the first occurrences of paths that were not seen before.

## Main results

* `ThemeOverride.candidates_roots` — the candidates in their order.
* `ThemeOverride.candidates_directories` — which candidates may be the same directory.
-/

namespace ThemeOverride

variable {d : Disk} {settings : Settings} {m current : Module} {seen : List Path}

/-! ## Trails behind trails -/

namespace Trail

/-- A trail behind another, unless that fails. -/
def andThen : Trail → Trail → Trail
  | done, behind => behind
  | failed f, _ => failed f
  | note n rest, behind => note n (rest.andThen behind)
  | root p rest, behind => root p (rest.andThen behind)

variable {t behind : Trail}

@[simp] lemma roots_notes (ns : List Note) (t : Trail) : (notes ns t).roots = t.roots := by
  induction ns with
  | nil => rfl
  | cons n ns ih => exact ih

@[simp] lemma failure?_notes (ns : List Note) (t : Trail) : (notes ns t).failure? = t.failure? := by
  induction ns with
  | nil => rfl
  | cons n ns ih => exact ih

@[simp] lemma notes_andThen (ns : List Note) (t behind : Trail) :
    (notes ns t).andThen behind = notes ns (t.andThen behind) := by
  induction ns with
  | nil => rfl
  | cons n ns ih => exact congrArg (note n) ih

lemma andThen_of_failure {f : Failure} (h : t.failure? = some f) : t.andThen behind = t := by
  induction t with
  | done => cases h
  | failed f => rfl
  | note n rest ih => exact congrArg (note n) (ih h)
  | root p rest ih => exact congrArg (root p) (ih h)

lemma roots_andThen (h : t.failure? = none) : (t.andThen behind).roots = t.roots ++ behind.roots := by
  induction t with
  | done => rfl
  | failed f => cases h
  | note n rest ih => exact ih h
  | root p rest ih => exact congrArg (p :: ·) (ih h)

lemma failure?_andThen (h : t.failure? = none) : (t.andThen behind).failure? = behind.failure? := by
  induction t with
  | done => rfl
  | failed f => cases h
  | note n rest ih => exact ih h
  | root p rest ih => exact ih h

end Trail

/-- The trail of the parents of a module alone. -/
def parentsTrail (d : Disk) (settings : Settings) (m : Module) : Trail :=
  parentTrail d settings (fun _ => .done) mostRoots m [m.root]

lemma parentTrail_eq_andThen (behind : List Path → Trail) (fuel : Nat) :
    parentTrail d settings behind fuel current seen =
      (parentTrail d settings (fun _ => .done) fuel current seen).andThen
        (behind ((parentTrail d settings (fun _ => .done) fuel current seen).roots.reverse ++ seen)) := by
  induction fuel generalizing current seen with
  | zero => rfl
  | succ fuel ih =>
    unfold parentTrail
    cases hparent : current.parentRoot d settings with
    | error f => rfl
    | ok found =>
      obtain ⟨found?, notes⟩ := found
      cases found? with
      | none => simp [Trail.andThen, Trail.roots]
      | some p =>
        by_cases hp : p ∈ seen
        · simp [hp, Trail.andThen, Trail.roots]
        · cases hnext : moduleAt d settings p with
          | error f => simp [hp, hnext, Trail.andThen, Trail.roots]
          | ok next => simp [hp, hnext, Trail.andThen, Trail.roots, @ih next (p :: seen)]

/-- The candidates are the parents, and the fallback modules behind them. -/
lemma candidates_eq {target : Path} (h : moduleAt d settings target = .ok m) :
    candidates d settings target = (parentsTrail d settings m).andThen
      (fallbackTrail d settings m.root settings.fallbackModules
        ((parentsTrail d settings m).roots.reverse ++ [m.root])) := by
  simp only [candidates, h]
  exact parentTrail_eq_andThen _ _

/-! ## Fallback modules -/

/-- The first occurrences of paths that were not seen before. -/
def newPaths : List Path → List Path → List Path
  | _, [] => []
  | seen, p :: rest => if p ∈ seen then newPaths seen rest else p :: newPaths (p :: seen) rest

lemma mem_newPaths {seen paths : List Path} {p : Path} :
    p ∈ newPaths seen paths ↔ p ∈ paths ∧ p ∉ seen := by
  induction paths generalizing seen with
  | nil => simp [newPaths]
  | cons q rest ih =>
    rw [newPaths]
    split
    · rename_i hq
      rw [ih, List.mem_cons]
      refine ⟨fun ⟨hp, hs⟩ => ⟨Or.inr hp, hs⟩, fun ⟨hp, hs⟩ => ⟨?_, hs⟩⟩
      rcases hp with rfl | hp
      · exact absurd hq hs
      · exact hp
    · rename_i hq
      rw [List.mem_cons, ih, List.mem_cons, List.mem_cons, not_or]
      constructor
      · rintro (rfl | ⟨hp, -, hs⟩)
        · exact ⟨Or.inl rfl, hq⟩
        · exact ⟨Or.inr hp, hs⟩
      · rintro ⟨hp, hs⟩
        by_cases he : p = q
        · exact Or.inl he
        · exact Or.inr ⟨hp.resolve_left he, he, hs⟩

lemma nodup_newPaths (seen paths : List Path) : (newPaths seen paths).Nodup := by
  induction paths generalizing seen with
  | nil => exact List.nodup_nil
  | cons q rest ih =>
    rw [newPaths]
    split
    · exact ih seen
    · refine List.nodup_cons.mpr ⟨fun hmem => ?_, ih (q :: seen)⟩
      exact (mem_newPaths.mp hmem).2 List.mem_cons_self

lemma newPaths_congr {seen seen' : List Path} (h : ∀ p, p ∈ seen ↔ p ∈ seen') (paths : List Path) :
    newPaths seen paths = newPaths seen' paths := by
  induction paths generalizing seen seen' with
  | nil => rfl
  | cons q rest ih =>
    rw [newPaths, newPaths, ih h, @ih (q :: seen) (q :: seen') (by simp [h])]
    simp only [h]

/-- Where a module is installed by its name, as seen from a directory. -/
def installedAt (d : Disk) (marker : String) (directory : Path) (name : String) : Option Path :=
  match installed d marker name directory with
  | .ok (found, _) => found
  | .error _ => none

lemma installedAt_eq_some {marker name : String} {directory p : Path} :
    installedAt d marker directory name = some p ↔
      ∃ notes, installed d marker name directory = .ok (some p, notes) := by
  unfold installedAt
  cases installed d marker name directory with
  | error f => simp
  | ok found =>
    obtain ⟨found?, notes⟩ := found
    simp

/-- The fallback modules come in the order of the settings, up to one that fails to be looked up. -/
lemma fallbackTrail_roots (target : Path) (names : List String) (seen : List Path) :
    (fallbackTrail d settings target names seen).roots <+:
        newPaths seen (names.filterMap (installedAt d settings.markerFile target)) ∧
      ((fallbackTrail d settings target names seen).failure? = none →
        (fallbackTrail d settings target names seen).roots =
          newPaths seen (names.filterMap (installedAt d settings.markerFile target))) := by
  induction names generalizing seen with
  | nil => simp [fallbackTrail, Trail.roots, newPaths]
  | cons name rest ih =>
    rw [fallbackTrail, List.filterMap_cons, installedAt]
    cases installed d settings.markerFile name target with
    | error f => simp [Trail.roots, Trail.failure?]
    | ok found =>
      obtain ⟨found?, notes⟩ := found
      cases found? with
      | none => simpa using ih seen
      | some p =>
        by_cases hp : p ∈ seen
        · simpa [hp, newPaths] using ih seen
        · simpa [hp, newPaths, Trail.roots, Trail.failure?] using ih (p :: seen)

/-! ## Parents -/

variable {t : Trail} {p real : Path}

namespace ParentLoop

/-- No path is met twice. -/
lemma nodup (h : ParentLoop d settings (fun _ => .done) seen current t) (hseen : seen.Nodup) :
    (t.roots.reverse ++ seen).Nodup := by
  induction h with
  | failed h => exact hseen
  | orphan h => simpa [Trail.roots] using hseen
  | met h => simpa [Trail.roots] using hseen
  | unread h hnew => simpa [Trail.roots] using ⟨hnew, hseen⟩
  | round h hnew _ _ ih => simpa [Trail.roots] using ih (List.nodup_cons.mpr ⟨hnew, hseen⟩)

/-- All that is met is an absolute path to a directory with the marker. -/
lemma isModuleRoot (h : ParentLoop d settings (fun _ => .done) seen current t) (hp : p ∈ t.roots) :
    p.isAbsolute = true ∧ ThemeOverride.isModuleRoot d settings.markerFile p = true := by
  induction h with
  | failed h => cases hp
  | orphan h => simp [Trail.roots] at hp
  | met h => simp [Trail.roots] at hp
  | unread h =>
    obtain ⟨habsolute, hmarker, -⟩ := Module.parentRoot_eq_some h
    obtain rfl : p = _ := by simpa [Trail.roots] using hp
    exact ⟨habsolute, hmarker⟩
  | round h _ _ _ ih =>
    obtain ⟨habsolute, hmarker, -⟩ := Module.parentRoot_eq_some h
    rw [Trail.roots_notes, Trail.roots, List.mem_cons] at hp
    rcases hp with rfl | hp
    · exact ⟨habsolute, hmarker⟩
    · exact ih hp

end ParentLoop

/-- Where the parent of the module in a real directory is installed. -/
def parentFrom (d : Disk) (settings : Settings) : Except Failure Path → Option Path
  | .ok real => parentAt d settings real
  | .error _ => none

/-- Each parent is looked up from the real directory of the one before. -/
lemma ParentLoop.isChain (hm : IsRelativeMarker settings.markerFile)
    (h : ParentLoop d settings (fun _ => .done) seen current t)
    (hp : parentFrom d settings (resolvePath d p) = parentAt d settings current.root) :
    List.IsChain (fun p q => parentFrom d settings (resolvePath d p) = some q) (p :: t.roots) := by
  induction h generalizing p with
  | failed h => exact List.isChain_singleton _
  | orphan h => simp [Trail.roots]
  | met h => simp [Trail.roots]
  | unread h => simp [Trail.roots, hp, Module.parentAt_eq_some h]
  | round h _ hnext _ ih =>
    obtain ⟨habsolute, hmarker, -⟩ := Module.parentRoot_eq_some h
    obtain ⟨hreal, -⟩ :=
      moduleRoot_eq_resolvePath hm habsolute hmarker (moduleRoot_of_moduleAt hnext)
    rw [Trail.roots_notes, Trail.roots, List.isChain_cons_cons]
    exact ⟨hp.trans (Module.parentAt_eq_some h), ih (by rw [hreal]; rfl)⟩

/-- What lies at the real directory of a module is what lies at the module. -/
lemma parentAt_real (hm : IsRelativeMarker settings.markerFile) (hp : p.isAbsolute = true)
    (hmarker : isModuleRoot d settings.markerFile p = true) :
    ∃ real, resolvePath d p = .ok real ∧ resolvePath d real = .ok real ∧
      parentAt d settings real = parentAt d settings p := by
  obtain ⟨place, content, hfollow⟩ := isModuleRoot_iff.mp hmarker
  rw [child_eq hm] at hfollow
  obtain ⟨within, hresolve, hself, hfollow'⟩ :=
    Disk.exists_resolve?_of_follow (Disk.isOpen_start hp) hfollow
  rw [← resolvePath_eq_ok_iff] at hresolve hself
  refine ⟨⟨"/", within⟩, hresolve, hself, ?_⟩
  have hread : d.read ((Path.mk "/" within).child settings.markerFile) =
      d.read (p.child settings.markerFile) := by
    simp only [Disk.read, child_eq hm, hfollow, hfollow']
  have hinstalled : ∀ name, installed d settings.markerFile name ⟨"/", within⟩ =
      installed d settings.markerFile name p := fun name => by
    unfold installed
    rw [hresolve, hself]
  have hmanifest : manifest d settings ⟨"/", within⟩ = manifest d settings p := by
    unfold manifest readText
    rw [hread]
  unfold parentAt Module.parentRoot Module.parent
  simp only [hmanifest, hinstalled]

/-! ## All candidates -/

lemma parentLoop_parentsTrail {target : Path} (h : moduleAt d settings target = .ok m) :
    ParentLoop d settings (fun _ => .done) [m.root] m (parentsTrail d settings m) :=
  parentLoop_parentTrail (mem_moduleRoots (moduleRoot_of_moduleAt h))

/-- Where the fallback modules are installed that were not met as parents. -/
def fallbackPaths (d : Disk) (settings : Settings) (m : Module) : List Path :=
  newPaths (m.root :: (parentsTrail d settings m).roots)
    (settings.fallbackModules.filterMap (installedAt d settings.markerFile m.root))

/-- **The candidates are the parents and then the fallback modules**, those behind a failure apart. -/
theorem candidates_roots {target : Path} (h : moduleAt d settings target = .ok m) :
    ∃ fallbacks, (candidates d settings target).roots =
        (parentsTrail d settings m).roots ++ fallbacks ∧
      fallbacks <+: fallbackPaths d settings m ∧
      ((candidates d settings target).failure? = none → fallbacks = fallbackPaths d settings m) := by
  rw [candidates_eq h]
  cases hf : (parentsTrail d settings m).failure? with
  | some f =>
    rw [Trail.andThen_of_failure hf]
    exact ⟨[], by simp, List.nil_prefix, fun hn => by rw [hf] at hn; cases hn⟩
  | none =>
    have hseen : newPaths ((parentsTrail d settings m).roots.reverse ++ [m.root])
        (settings.fallbackModules.filterMap (installedAt d settings.markerFile m.root)) =
        fallbackPaths d settings m := newPaths_congr (by simp [or_comm]) _
    obtain ⟨hfront, hall⟩ := fallbackTrail_roots m.root settings.fallbackModules
      ((parentsTrail d settings m).roots.reverse ++ [m.root])
    rw [hseen] at hfront hall
    rw [Trail.roots_andThen hf, Trail.failure?_andThen hf]
    exact ⟨_, rfl, hfront, hall⟩

/-- The first values of a chain of functions that leads on to different values are different. -/
lemma nodup_map_dropLast {α β : Type*} {f : α → β} {g : β → Option α} {x : α} {xs : List α}
    (h : List.IsChain (fun x y => g (f x) = some y) (x :: xs)) (hnodup : xs.Nodup) :
    ((x :: xs).dropLast.map f).Nodup := by
  have hnext : ((x :: xs).dropLast.map f).map g = xs.map some := by
    clear hnodup
    induction xs generalizing x with
    | nil => rfl
    | cons y ys ih =>
      rw [List.isChain_cons_cons] at h
      rw [List.dropLast_cons_cons, List.map_cons, List.map_cons, ih h.2, h.1, List.map_cons]
  exact List.Nodup.of_map g (hnext ▸ hnodup.map (Option.some_injective _))

/-- The root of a module is found with the marker. -/
lemma isModuleRoot_of_moduleRoot {marker : String} (h : moduleRoot d marker p = .ok real) :
    real.isAbsolute = true ∧ isModuleRoot d marker real = true := by
  obtain ⟨start, hstart, -, hnearest⟩ := moduleRoot_eq_ok h
  have hslash := root_of_resolvePath hstart
  have hroot : real.root = "/" := by
    rw [(mem_ancestors (List.mem_of_find?_eq_some hnearest)).1]
    split
    · exact hslash
    · exact hslash
  exact ⟨by simp [Path.isAbsolute, hroot], List.find?_some hnearest⟩

/-- **No path comes twice**, and none is that of the root of the target. -/
lemma nodup_candidates {target : Path} (h : moduleAt d settings target = .ok m) :
    (m.root :: (candidates d settings target).roots).Nodup := by
  obtain ⟨fallbacks, hroots, hfront, -⟩ := candidates_roots h
  have hparents : (m.root :: (parentsTrail d settings m).roots).Nodup := by
    have hreverse := (parentLoop_parentsTrail h).nodup (List.nodup_singleton m.root)
    simpa using List.nodup_reverse.mpr hreverse
  rw [hroots, ← List.cons_append]
  refine List.nodup_append.mpr ⟨hparents, (nodup_newPaths _ _).sublist hfront.sublist, ?_⟩
  rintro p hp q hq rfl
  exact (mem_newPaths.mp (hfront.subset hq)).2 hp

/-- Each candidate is an absolute path to a directory with the marker. -/
lemma isModuleRoot_of_mem_candidates {target : Path} (h : moduleAt d settings target = .ok m)
    (hp : p ∈ m.root :: (candidates d settings target).roots) :
    p.isAbsolute = true ∧ isModuleRoot d settings.markerFile p = true := by
  obtain ⟨fallbacks, hroots, hfront, -⟩ := candidates_roots h
  rw [hroots, List.mem_cons, List.mem_append] at hp
  rcases hp with rfl | hp | hp
  · exact isModuleRoot_of_moduleRoot (moduleRoot_of_moduleAt h)
  · exact (parentLoop_parentsTrail h).isModuleRoot hp
  · obtain ⟨name, -, hname⟩ := List.mem_filterMap.mp (mem_newPaths.mp (hfront.subset hp)).1
    obtain ⟨notes, hinstalled⟩ := installedAt_eq_some.mp hname
    obtain ⟨habsolute, hmarker, -⟩ := installed_eq_some hinstalled
    exact ⟨habsolute, hmarker⟩

/-- The candidates that may be at other paths to directories that come before: the last of the
parents, and the fallback modules. -/
def lateCandidates (d : Disk) (settings : Settings) (target : Path) (m : Module) : List Path :=
  (candidates d settings target).roots.drop ((parentsTrail d settings m).roots.length - 1)

/-- The target and all parents but the last are different directories. -/
lemma nodup_real_parents {target : Path} (hm : IsRelativeMarker settings.markerFile)
    (h : moduleAt d settings target = .ok m) :
    ((m.root :: (parentsTrail d settings m).roots.dropLast).map (resolvePath d)).Nodup := by
  have hloop := parentLoop_parentsTrail h
  obtain ⟨habsolute, hmarker⟩ := isModuleRoot_of_moduleRoot (moduleRoot_of_moduleAt h)
  obtain ⟨real, hreal, -, hsame⟩ := parentAt_real hm habsolute hmarker
  have hchain := hloop.isChain hm (by rw [hreal]; exact hsame)
  have hnodup : (parentsTrail d settings m).roots.Nodup :=
    List.nodup_reverse.mp (hloop.nodup (List.nodup_singleton m.root)).of_append_left
  cases hroots : (parentsTrail d settings m).roots with
  | nil => exact List.nodup_singleton _
  | cons p rest =>
    rw [hroots] at hchain hnodup
    exact nodup_map_dropLast hchain hnodup

/-- **Which candidates may be the same directory.** No path comes twice, and all paths lead to real
directories. Those of the target and of all parents but the last are different. So the directories
are all different exactly if the last parent and the fallback modules are no other paths to them.

**Proof sketch.** The parent of a module is a function of its real directory. If a directory is met
again, so is its parent, and the walk stops: a directory that is met again is the last. -/
theorem candidates_directories {target : Path} (hm : IsRelativeMarker settings.markerFile)
    (h : moduleAt d settings target = .ok m) :
    (m.root :: (candidates d settings target).roots).Nodup ∧
    (∀ p ∈ m.root :: (candidates d settings target).roots, ∃ real, resolvePath d p = .ok real) ∧
    ((m.root :: (parentsTrail d settings m).roots.dropLast).map (resolvePath d)).Nodup ∧
    (((m.root :: (candidates d settings target).roots).map (resolvePath d)).Nodup ↔
      ∀ p ∈ lateCandidates d settings target m,
        ∀ q ∈ m.root :: (candidates d settings target).roots,
          resolvePath d p = resolvePath d q → p = q) := by
  have hnodup := nodup_candidates h
  have hmarker : ∀ p ∈ m.root :: (candidates d settings target).roots, _ :=
    fun p hp => isModuleRoot_of_mem_candidates h hp
  have hearly := nodup_real_parents hm h
  refine ⟨hnodup, fun p hp => ?_, hearly, fun hreal p hp q hq he => ?_, fun hlate => ?_⟩
  · obtain ⟨real, hreal, -⟩ := parentAt_real hm (hmarker p hp).1 (hmarker p hp).2
    exact ⟨real, hreal⟩
  · exact List.inj_on_of_nodup_map hreal
      (List.mem_cons_of_mem _ (List.mem_of_mem_drop hp)) hq he
  · have hcases : ∀ p ∈ m.root :: (candidates d settings target).roots,
        p ∈ m.root :: (parentsTrail d settings m).roots.dropLast ∨
        p ∈ lateCandidates d settings target m := fun p hp => by
      rw [List.mem_cons, ← List.take_append_drop ((parentsTrail d settings m).roots.length - 1)
        (candidates d settings target).roots, List.mem_append] at hp
      rw [List.mem_cons, List.dropLast_eq_take]
      obtain ⟨fallbacks, hroots, -⟩ := candidates_roots h
      rw [hroots, List.take_append_of_le_length (Nat.sub_le _ _), ← hroots] at hp
      exact or_assoc.mpr hp
    refine List.Nodup.map_on (fun p hp q hq he => ?_) hnodup
    rcases hcases p hp with hp' | hp'
    · rcases hcases q hq with hq' | hq'
      · exact List.inj_on_of_nodup_map hearly hp' hq' he
      · exact (hlate q hq' p hp he.symm).symm
    · exact hlate p hp' q hq he

/-- A workspace of two modules that state each other as parents, both of which are installed by links
in the workspace. -/
def Disk.linkedWorkspace : Disk where
  entries :=
    [(["ws"], .directory), (["ws", "t"], .directory), (["ws", "t", "package.json"], .file (Text.encode
        "\x7b\"scandipwa\": \x7b\"parentTheme\": \"b\"\x7d\x7d")),
     (["ws", "b"], .directory), (["ws", "b", "package.json"], .file (Text.encode
        "\x7b\"scandipwa\": \x7b\"parentTheme\": \"t\"\x7d\x7d")),
     (["ws", "node_modules"], .directory),
     (["ws", "node_modules", "b"], .link (.ofString "../b")),
     (["ws", "node_modules", "t"], .link (.ofString "../t"))]

/-- In such a workspace the target itself is a candidate, at the path of its link. -/
theorem linkedWorkspace_meets_target :
    moduleRoot Disk.linkedWorkspace "package.json" (.ofString "/ws/t") = .ok (.ofString "/ws/t") ∧
    (candidates Disk.linkedWorkspace {} (.ofString "/ws/t")).roots =
      [.ofString "/ws/node_modules/b", .ofString "/ws/node_modules/t"] ∧
    resolvePath Disk.linkedWorkspace (.ofString "/ws/node_modules/t") = .ok (.ofString "/ws/t") := by
  decide +kernel

theorem candidates_directories_linkedWorkspace :
    IsRelativeMarker "package.json" ∧
    ∃ m, moduleAt Disk.linkedWorkspace {} (.ofString "/ws/t") = .ok m ∧
      (m.root :: (candidates Disk.linkedWorkspace {} (.ofString "/ws/t")).roots).Nodup ∧
      ((m.root :: (parentsTrail Disk.linkedWorkspace {} m).roots.dropLast).map
        (resolvePath Disk.linkedWorkspace)).Nodup := by
  obtain ⟨m, hm⟩ : ∃ m, moduleAt Disk.linkedWorkspace {} (.ofString "/ws/t") = .ok m :=
    exists_eq_ok (by decide +kernel)
  have hrelative : IsRelativeMarker "package.json" := by decide
  obtain ⟨hnodup, -, hearly, -⟩ := candidates_directories hrelative hm
  exact ⟨hrelative, m, hm, hnodup, hearly⟩

end ThemeOverride
