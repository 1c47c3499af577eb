import ThemeOverride.Proofs.Disk.Proper
import ThemeOverride.Proofs.Module.Roots

/-!
# The walk from parent to parent

The modules that are searched first are the parent of the target module, the parent of that, and so
on. The walk stops where a module states no parent that is installed, or one that was met already.
Parents may be stated in a circle that does not lead back to the target, and one directory may be met
at different paths; the walk ends all the same.

## Main definitions

* `ThemeOverride.ParentWalk` — what has been met after some rounds, and the module that is next.
* `ThemeOverride.ParentLoop` — the trail that the walk leaves, for however many rounds it goes on.

## Main results

* `ThemeOverride.ParentWalk.exists_roots` — the paths that were met are the parents of as many roots.
* `ThemeOverride.parentLoop_candidates` — the walk ends, after no more rounds than there are roots.

## Design

Paths are what is compared, but where the parent of a module is installed is a function of the root
of the module. A root that is met again would therefore have its parent among the paths that were
met, so that the walk stops there.
-/

namespace ThemeOverride

variable {d : Disk} {settings : Settings} {m₀ m current : Module} {seen : List Path}

/-! ## Rounds -/

/-- The paths that were met after some rounds of the walk from a module, the last first, and the
module whose parent is looked up next. -/
inductive ParentWalk (d : Disk) (settings : Settings) (m₀ : Module) : List Path → Module → Prop
  | start : ParentWalk d settings m₀ [m₀.root] m₀
  | round {seen : List Path} {current next : Module} {p : Path} {notes : List Note}
      (h : ParentWalk d settings m₀ seen current)
      (hparent : current.parentRoot d settings = .ok (some p, notes)) (hnew : p ∉ seen)
      (hnext : moduleAt d settings p = .ok next) : ParentWalk d settings m₀ (p :: seen) next

/-- The trail that the walk from a module leaves behind the paths that were met already, for however
many rounds it goes on; `behind` is the trail behind it. -/
inductive ParentLoop (d : Disk) (settings : Settings) (behind : List Path → Trail) :
    List Path → Module → Trail → Prop
  | failed {seen : List Path} {current : Module} {f : Failure}
      (h : current.parentRoot d settings = .error f) :
      ParentLoop d settings behind seen current (.failed f)
  | orphan {seen : List Path} {current : Module} {notes : List Note}
      (h : current.parentRoot d settings = .ok (none, notes)) :
      ParentLoop d settings behind seen current (.notes notes (behind seen))
  | met {seen : List Path} {current : Module} {p : Path} {notes : List Note}
      (h : current.parentRoot d settings = .ok (some p, notes)) (hseen : p ∈ seen) :
      ParentLoop d settings behind seen current (.notes notes (behind seen))
  | unread {seen : List Path} {current : Module} {p : Path} {notes : List Note} {f : Failure}
      (h : current.parentRoot d settings = .ok (some p, notes)) (hnew : p ∉ seen)
      (hnext : moduleAt d settings p = .error f) :
      ParentLoop d settings behind seen current (.notes notes (.root p (.failed f)))
  | round {seen : List Path} {current next : Module} {p : Path} {notes : List Note} {rest : Trail}
      (h : current.parentRoot d settings = .ok (some p, notes)) (hnew : p ∉ seen)
      (hnext : moduleAt d settings p = .ok next)
      (hrest : ParentLoop d settings behind (p :: seen) next rest) :
      ParentLoop d settings behind seen current (.notes notes (.root p rest))

namespace ParentLoop

variable {behind : List Path → Trail} {t : Trail} {p : Path} {notes : List Note}

lemma eq_failed {f : Failure} (hl : ParentLoop d settings behind seen current t)
    (h : current.parentRoot d settings = .error f) : t = .failed f := by
  cases hl <;> simp_all

lemma eq_notes {found : Option Path} (hl : ParentLoop d settings behind seen current t)
    (h : current.parentRoot d settings = .ok (found, notes)) (hmet : ∀ p ∈ found, p ∈ seen) :
    t = .notes notes (behind seen) := by
  cases hl <;> simp_all

lemma exists_round (hl : ParentLoop d settings behind seen current t)
    (h : current.parentRoot d settings = .ok (some p, notes)) (hnew : p ∉ seen) :
    ∃ rest, t = .notes notes (.root p rest) ∧
      match moduleAt d settings p with
      | .error f => rest = .failed f
      | .ok next => ParentLoop d settings behind (p :: seen) next rest := by
  cases hl with
  | unread h' hnew' hnext =>
    rw [h] at h'
    cases h'
    exact ⟨_, rfl, by rw [hnext]⟩
  | round h' hnew' hnext hrest =>
    rw [h] at h'
    cases h'
    exact ⟨_, rfl, by rw [hnext]; exact hrest⟩
  | _ => simp_all

/-- There is only one trail that the walk leaves. -/
lemma unique {t' : Trail} (h : ParentLoop d settings behind seen current t)
    (h' : ParentLoop d settings behind seen current t') : t = t' := by
  induction h generalizing t' with
  | failed h => exact (h'.eq_failed h).symm
  | orphan h => exact (h'.eq_notes h (by simp)).symm
  | met h hseen => exact (h'.eq_notes h (by simpa using hseen)).symm
  | unread h hnew hnext =>
    obtain ⟨rest, rfl, hrest⟩ := h'.exists_round h hnew
    rw [hnext] at hrest
    rw [hrest]
  | round h hnew hnext _ ih =>
    obtain ⟨rest, rfl, hrest⟩ := h'.exists_round h hnew
    rw [hnext] at hrest
    rw [ih hrest]

end ParentLoop

namespace ParentWalk

lemma root_mem (h : ParentWalk d settings m₀ seen current)
    (h₀ : m₀.root ∈ moduleRoots d settings.markerFile) :
    current.root ∈ moduleRoots d settings.markerFile := by
  cases h with
  | start => exact h₀
  | round _ _ _ hnext => exact mem_moduleRoots (moduleRoot_of_moduleAt hnext)

/-- Behind the first module, roots are real directories. -/
lemma root_mem_openPaths (h : ParentWalk d settings m₀ seen current)
    (hm : IsRelativeMarker settings.markerFile) :
    current.root = m₀.root ∨ current.root ∈ openPaths d := by
  cases h with
  | start => exact Or.inl rfl
  | round _ hparent _ hnext =>
    obtain ⟨hp, hmarker, -⟩ := Module.parentRoot_eq_some hparent
    obtain ⟨-, hopen⟩ := moduleRoot_eq_resolvePath hm hp hmarker (moduleRoot_of_moduleAt hnext)
    exact Or.inr hopen

lemma nodup (h : ParentWalk d settings m₀ seen current) : seen.Nodup := by
  induction h with
  | start => exact List.nodup_singleton _
  | round _ _ hnew _ ih => exact List.nodup_cons.mpr ⟨hnew, ih⟩

/-- Each path that was met is the parent of another root, but for the root that the walk starts at. -/
structure MetFrom (d : Disk) (settings : Settings) (m₀ : Module) (seen roots : List Path) : Prop where
  parents : seen.map some = roots.map (parentAt d settings) ++ [some m₀.root]
  nodup : roots.Nodup
  isRoot : ∀ root ∈ roots, root ∈ moduleRoots d settings.markerFile
  isReal : IsRelativeMarker settings.markerFile → ∀ root ∈ roots, root = m₀.root ∨ root ∈ openPaths d

/-- **The paths that were met are the parents of as many roots.** -/
theorem exists_roots (h : ParentWalk d settings m₀ seen current)
    (h₀ : m₀.root ∈ moduleRoots d settings.markerFile) :
    ∃ roots : List Path, MetFrom d settings m₀ seen roots := by
  suffices hparents : ∃ roots : List Path,
      seen.map some = roots.map (parentAt d settings) ++ [some m₀.root] ∧
      (∀ root ∈ roots, root ∈ moduleRoots d settings.markerFile) ∧
      (IsRelativeMarker settings.markerFile → ∀ root ∈ roots, root = m₀.root ∨ root ∈ openPaths d) by
    obtain ⟨roots, hparents, hroots, hreal⟩ := hparents
    -- different paths are the parents of different roots
    have hnodup : (roots.map (parentAt d settings) ++ [some m₀.root]).Nodup :=
      hparents ▸ h.nodup.map (Option.some_injective _)
    exact ⟨roots, hparents, (List.Nodup.of_append_left hnodup).of_map, hroots, hreal⟩
  induction h with
  | start => exact ⟨[], rfl, by simp, by simp⟩
  | @round seen current next p notes hwalk hparent hnew hnext ih =>
    obtain ⟨roots, hseen, hroots, hreal⟩ := ih
    refine ⟨current.root :: roots, ?_, ?_, fun hm => ?_⟩
    · simp [hseen, Module.parentAt_eq_some hparent]
    · exact List.forall_mem_cons.mpr ⟨hwalk.root_mem h₀, hroots⟩
    · exact List.forall_mem_cons.mpr ⟨hwalk.root_mem_openPaths hm, hreal hm⟩

namespace MetFrom

variable {roots : List Path}

lemma length_eq (h : MetFrom d settings m₀ seen roots) : seen.length = roots.length + 1 := by
  simpa using congrArg List.length h.parents

lemma exists_mem (h : MetFrom d settings m₀ seen roots) {root : Path} (hroot : root ∈ roots) :
    ∃ p ∈ seen, parentAt d settings root = some p := by
  have hmem : parentAt d settings root ∈ seen.map some := by
    rw [h.parents]
    exact List.mem_append_left _ (List.mem_map_of_mem hroot)
  obtain ⟨p, hp, he⟩ := List.mem_map.mp hmem
  exact ⟨p, hp, he.symm⟩

/-- Roots that all lie in a finite set are no more than the set has. -/
lemma length_le (h : MetFrom d settings m₀ seen roots) {s : Set Path} (hs : s.Finite)
    (hsub : ∀ root ∈ roots, root ∈ s) : seen.length ≤ s.ncard + 1 := by
  have hle := Set.ncard_le_ncard (s := roots.toFinset) (fun r hr => hsub r (by simpa using hr)) hs
  rw [Set.ncard_coe_finset, List.toFinset_card_of_nodup h.nodup] at hle
  have hlength := h.length_eq
  omega

/-- If as many paths were met as there are roots, these are all roots. -/
lemma mem_of_length (h : MetFrom d settings m₀ seen roots)
    (hlength : (moduleRoots d settings.markerFile).ncard + 1 ≤ seen.length) {root : Path}
    (hroot : root ∈ moduleRoots d settings.markerFile) : root ∈ roots := by
  have hall : (roots.toFinset : Set Path) = moduleRoots d settings.markerFile := by
    refine Set.eq_of_subset_of_ncard_le (fun r hr => h.isRoot r (by simpa using hr)) ?_
      (finite_moduleRoots d settings.markerFile)
    rw [Set.ncard_coe_finset, List.toFinset_card_of_nodup h.nodup]
    have hlength := h.length_eq
    omega
  have hmem : root ∈ (roots.toFinset : Set Path) := hall ▸ hroot
  simpa using hmem

end MetFrom

/-- There are no more rounds than roots. -/
lemma length_le (h : ParentWalk d settings m₀ seen current)
    (h₀ : m₀.root ∈ moduleRoots d settings.markerFile) :
    seen.length ≤ (moduleRoots d settings.markerFile).ncard + 1 := by
  obtain ⟨roots, hmet⟩ := h.exists_roots h₀
  exact hmet.length_le (finite_moduleRoots d settings.markerFile) hmet.isRoot

/-- There are hardly more rounds than entries of the disk. -/
lemma length_le_entries (h : ParentWalk d settings m₀ seen current)
    (h₀ : m₀.root ∈ moduleRoots d settings.markerFile) (hm : IsRelativeMarker settings.markerFile) :
    seen.length ≤ d.entries.length + 3 := by
  obtain ⟨roots, hmet⟩ := h.exists_roots h₀
  have hle := hmet.length_le ((finite_openPaths d).insert m₀.root) (hmet.isReal hm)
  have hinsert := Set.ncard_insert_le m₀.root (openPaths d)
  have hopen := ncard_openPaths_le d
  omega

/-- After as many rounds as there are roots, the parent was met already. -/
lemma parent_mem_of_length (h : ParentWalk d settings m₀ seen current)
    (h₀ : m₀.root ∈ moduleRoots d settings.markerFile)
    (hlength : (moduleRoots d settings.markerFile).ncard + 1 ≤ seen.length) :
    ∃ p ∈ seen, parentAt d settings current.root = some p := by
  obtain ⟨roots, hmet⟩ := h.exists_roots h₀
  exact hmet.exists_mem (hmet.mem_of_length hlength (h.root_mem h₀))

end ParentWalk

/-! ## The end of the walk -/

/-- **The walk ends.** As many rounds as there are roots are enough.

**Proof sketch.** Induction on the rounds that may follow. When none is left, all roots have been
met, that of the current module too, so that its parent is among the paths that were met: the loop
stops there, as the bounded walk does. -/
theorem ParentWalk.loop {behind : List Path → Trail} (h₀ : m₀.root ∈ moduleRoots d settings.markerFile)
    (h : ParentWalk d settings m₀ seen current) {fuel : Nat}
    (hfuel : (moduleRoots d settings.markerFile).ncard + 1 ≤ fuel + seen.length) :
    ParentLoop d settings behind seen current (parentTrail d settings behind fuel current seen) := by
  induction fuel generalizing seen current with
  | zero =>
    obtain ⟨p, hp, hparent⟩ := h.parent_mem_of_length h₀ (by omega)
    obtain ⟨notes, hroot⟩ : ∃ notes, current.parentRoot d settings = .ok (some p, notes) := by
      rw [current.parentAt_root] at hparent
      split at hparent
      · rename_i found notes hroot
        exact ⟨notes, hparent ▸ hroot⟩
      · cases hparent
    obtain rfl := (Module.parentRoot_eq_some hroot).2.2
    exact .met hroot hp
  | succ fuel ih =>
    unfold parentTrail
    split
    · rename_i f hroot
      exact .failed hroot
    · rename_i notes hroot
      exact .orphan hroot
    · rename_i p notes hroot
      by_cases hseen : p ∈ seen
      · rw [if_pos (by simpa using hseen)]
        exact .met hroot hseen
      · rw [if_neg (by simpa using hseen)]
        split
        · rename_i f hnext
          exact .unread hroot hseen hnext
        · rename_i next hnext
          exact .round hroot hseen hnext (ih (h.round hroot hseen hnext)
            (by rw [List.length_cons]; omega))

/-- The bounded walk is the unbounded one. -/
lemma parentLoop_parentTrail {behind : List Path → Trail}
    (h₀ : m.root ∈ moduleRoots d settings.markerFile) :
    ParentLoop d settings behind [m.root] m
      (parentTrail d settings behind mostRoots m [m.root]) := by
  have hfuel := ncard_moduleRoots_le d settings.markerFile
  exact ParentWalk.start.loop h₀ (by rw [List.length_singleton]; omega)

/-- **The walk from parent to parent ends**, whatever lies on the disk and whatever the modules state.
If the target belongs to a module, the candidates are what the unbounded walk leaves in front of the
fallback modules. Each round adds a path that was not met before, which is the parent of another root;
of roots there are finitely many, and if the marker is named by a relative path they are real
directories on the disk. -/
theorem parentLoop_candidates {target : Path} (h : moduleAt d settings target = .ok m) :
    ParentLoop d settings (fallbackTrail d settings m.root settings.fallbackModules) [m.root] m
      (candidates d settings target) ∧
    (moduleRoots d settings.markerFile).Finite ∧
    ∀ seen current, ParentWalk d settings m seen current →
      seen.Nodup ∧ (∃ roots, ParentWalk.MetFrom d settings m seen roots) ∧
      seen.length ≤ (moduleRoots d settings.markerFile).ncard + 1 ∧
      (IsRelativeMarker settings.markerFile → seen.length ≤ d.entries.length + 3) := by
  have h₀ := mem_moduleRoots (moduleRoot_of_moduleAt h)
  refine ⟨?_, finite_moduleRoots d settings.markerFile, fun seen current hwalk =>
    ⟨hwalk.nodup, hwalk.exists_roots h₀, hwalk.length_le h₀, hwalk.length_le_entries h₀⟩⟩
  unfold candidates
  rw [h]
  exact parentLoop_parentTrail h₀

lemma exists_eq_ok {ε α : Type*} {x : Except ε α} (h : x.isOk = true) : ∃ a, x = .ok a := by
  cases x with
  | error e => cases h
  | ok a => exact ⟨a, rfl⟩

/-- Two modules that state each other as parents, and a third that is led to them through a link. -/
def Disk.parentCircle : Disk where
  entries :=
    [(["t"], .directory), (["t", "package.json"], .file (Text.encode
        "\x7b\"scandipwa\": \x7b\"parentTheme\": \"x\"\x7d\x7d")),
     (["t", "node_modules"], .directory),
     (["t", "node_modules", "x"], .link (.ofString "../../x")),
     (["x"], .directory), (["x", "package.json"], .file (Text.encode
        "\x7b\"scandipwa\": \x7b\"parentTheme\": \"../y\"\x7d\x7d")),
     (["y"], .directory), (["y", "package.json"], .file (Text.encode
        "\x7b\"scandipwa\": \x7b\"parentTheme\": \"x\"\x7d\x7d")),
     (["y", "node_modules"], .directory),
     (["y", "node_modules", "x"], .link (.ofString "/x"))]

/-- The walk goes around the circle until the path to `y` comes again; `x` is met at two paths. -/
theorem parentLoop_candidates_parentCircle :
    ∃ m, moduleAt Disk.parentCircle {} (.ofString "/t") = .ok m ∧
      ParentLoop Disk.parentCircle {}
        (fallbackTrail Disk.parentCircle {} m.root ["@scandipwa/scandipwa"]) [m.root] m
        (candidates Disk.parentCircle {} (.ofString "/t")) ∧
      (candidates Disk.parentCircle {} (.ofString "/t")).roots =
        [.ofString "/t/node_modules/x", .ofString "/y", .ofString "/y/node_modules/x"] := by
  obtain ⟨m, hm⟩ : ∃ m, moduleAt Disk.parentCircle {} (.ofString "/t") = .ok m :=
    exists_eq_ok (by decide +kernel)
  exact ⟨m, hm, (parentLoop_candidates hm).1, by decide +kernel⟩

end ThemeOverride
