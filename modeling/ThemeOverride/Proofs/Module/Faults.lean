import ThemeOverride.Command.Basic
import ThemeOverride.Proofs.Module.Location

/-!
# What the search for a resource can fail on

Some failures of the search for a resource concern the user and are printed; all others have their
cause on the disk, or in the name of the resource: a file that holds no text, links that lead around
in a circle, or a manifest that is not what a manifest has to be.

## Main definitions

* `ThemeOverride.Value.IsManifest` — a value that is what a manifest has to be.
* `ThemeOverride.Disk.Blames` — what lies on a disk is the cause of a failure.

## Main results

* `ThemeOverride.moduleAt_error`, `ThemeOverride.locate_error`, `ThemeOverride.targetDirectory_error` —
  what each step of the search can fail on.
-/

namespace ThemeOverride

/-- **A value is what a manifest has to be**: a table, in which what is said of the module is a table
again if it is given, and the parent that this states is a text if it is given. -/
def Value.IsManifest (settings : Settings) (v : Value) : Prop :=
  ∃ fields about, v = .table fields ∧ metadata settings v = .ok (.table about) ∧
    (((Value.lookup? settings.parentKey about).getD .null).isVoid = true ∨
      ((Value.lookup? settings.parentKey about).getD .null).text?.isSome = true)

/-- The file at a path holds no text. -/
def Disk.HoldsNoText (d : Disk) (p : Path) : Prop :=
  ∃ content, d.read p = .ok content ∧ Text.decode? content = none

/-- **What lies on a disk is the cause of a failure**: links around in a circle, or a manifest that is no
text, no JSON, not what a manifest has to be, or names its module by something else than a text. -/
inductive Disk.Blames (d : Disk) (settings : Settings) : Failure → Prop
  | linkLoop {p : Path} (h : d.resolve? p = none) : Blames d settings .linkLoop
  | notText {root : Path} (h : d.HoldsNoText (root.child settings.markerFile)) :
      Blames d settings .notText
  | malformed {root : Path} {s : String} (h : readText d (root.child settings.markerFile) = .ok s)
      (hj : Json.read? s = none) : Blames d settings (.malformed .manifest)
  | shape {root : Path} {v : Value} (h : manifest d settings root = .ok v)
      (hv : ¬ v.IsManifest settings) : Blames d settings .manifestShape
  | name {root : Path} {fields : List (Value × Value)} {name : Value}
      (h : manifest d settings root = .ok (.table fields))
      (hname : Value.lookup? "name" fields = some name) (hvoid : name.isVoid = false)
      (htext : name.text? = none) : Blames d settings .textNeeded

/-- **A failure is printed, or its cause lies on a disk.** -/
def Failure.IsExplained (d : Disk) (settings : Settings) (f : Failure) : Prop :=
  f.isPrinted = true ∨ d.Blames settings f

section

variable {d : Disk} {settings : Settings} {f : Failure} {p root : Path}

/-! ## Manifests -/

lemma Except.bind_eq_error {α β : Type} {e : Except Failure α} {next : α → Except Failure β} :
    e.bind next = .error f ↔ e = .error f ∨ ∃ a, e = .ok a ∧ next a = .error f := by
  cases e with
  | error g => simp [Except.bind]
  | ok a => simp [Except.bind]

lemma Except.bind_eq_ok {α β : Type} {e : Except Failure α} {next : α → Except Failure β} {b : β} :
    e.bind next = .ok b ↔ ∃ a, e = .ok a ∧ next a = .ok b := by
  cases e with
  | error g => simp [Except.bind]
  | ok a => simp [Except.bind]

lemma Except.map_eq_ok {α β : Type} {e : Except Failure α} {f : α → β} {b : β} :
    e.map f = .ok b ↔ ∃ a, e = .ok a ∧ b = f a := by
  cases e with
  | error g => simp [Except.map]
  | ok a => simp [Except.map, eq_comm]

lemma Except.map_eq_error {α β : Type} {e : Except Failure α} {f : α → β} {g : Failure} :
    e.map f = .error g ↔ e = .error g := by
  cases e with
  | error g => simp [Except.map]
  | ok a => simp [Except.map]

/-- A text that cannot be read is refused by the disk, or the file holds no text. -/
lemma readText_error (h : readText d p = .error f) :
    f.isPrinted = true ∨ f = .notText ∧ d.HoldsNoText p := by
  unfold readText at h
  split at h
  · cases h
    exact .inl rfl
  · rename_i content hread
    split at h
    · rename_i hd
      cases h
      exact .inr ⟨rfl, content, hread, hd⟩
    · cases h

lemma resolvePath_error (h : resolvePath d p = .error f) : f.IsExplained d settings := by
  unfold resolvePath at h
  split at h
  · rename_i hloop
    cases h
    exact .inr (.linkLoop hloop)
  · cases h

lemma moduleRoot_error (h : moduleRoot d settings.markerFile p = .error f) :
    f.IsExplained d settings := by
  rcases Except.bind_eq_error.mp h with h | ⟨start, -, h⟩
  · exact resolvePath_error h
  · split at h
    · cases h
      exact .inl rfl
    · dsimp only at h
      split at h
      · cases h
      · cases h
        exact .inl rfl

lemma manifest_error (h : manifest d settings root = .error f) : f.IsExplained d settings := by
  rcases Except.bind_eq_error.mp h with h | ⟨s, hread, h⟩
  · exact (readText_error h).imp_right fun ⟨hf, hno⟩ => hf ▸ .notText hno
  · split at h
    · rename_i hj
      cases h
      exact .inr (.malformed hread hj)
    · cases h

lemma fieldOf_error {v : Value} {key : String} (h : fieldOf v key = .error f) :
    f = .manifestShape ∧ ∀ fields, v ≠ .table fields := by
  cases v with
  | table fields => cases h
  | _ =>
    cases h
    exact ⟨rfl, fun _ => by simp⟩

/-- What is said of the module and what is read from that fails only on what is no manifest. -/
lemma metadata_error {v : Value} (h : manifest d settings root = .ok v)
    (hm : metadata settings v = .error f) : f.IsExplained d settings := by
  unfold metadata at hm
  cases hfield : fieldOf v settings.metadataKey with
  | ok about =>
    rw [hfield] at hm
    cases hm
  | error g =>
    obtain ⟨rfl, hno⟩ := fieldOf_error hfield
    rw [hfield] at hm
    cases hm
    exact .inr (.shape h fun ⟨fields, _, hv, _⟩ => hno fields hv)

lemma fieldOf_metadata_error {v about : Value} {key : String} (h : manifest d settings root = .ok v)
    (hm : metadata settings v = .ok about) (hf : fieldOf about key = .error f) :
    f.IsExplained d settings := by
  obtain ⟨rfl, hno⟩ := fieldOf_error hf
  refine .inr (.shape h fun ⟨_, fields, _, habout, _⟩ => hno fields ?_)
  rw [hm] at habout
  exact Except.ok.inj habout

/-- **What is known of a module can be missing** only for a reason that is printed or lies on the
disk. -/
theorem moduleAt_error (h : moduleAt d settings p = .error f) : f.IsExplained d settings := by
  rcases Except.bind_eq_error.mp h with h | ⟨root, -, h⟩
  · exact moduleRoot_error h
  rcases Except.bind_eq_error.mp h with h | ⟨v, hv, h⟩
  · exact manifest_error h
  rcases Except.bind_eq_error.mp h with h | ⟨about, habout, h⟩
  · exact metadata_error hv h
  rcases Except.bind_eq_error.mp h with h | ⟨name, -, h⟩
  · obtain ⟨rfl, hno⟩ := fieldOf_error h
    exact .inr (.shape hv fun ⟨fields, _, htable, _⟩ => hno fields htable)
  rcases Except.bind_eq_error.mp h with h | ⟨type, -, h⟩
  · exact fieldOf_metadata_error hv habout h
  rcases Except.bind_eq_error.mp h with h | ⟨aliasName, -, h⟩
  · exact fieldOf_metadata_error hv habout h
  · cases h

/-! ## Modules that are searched -/

lemma installed_error {marker name : String} (h : installed d marker name p = .error f) :
    f.IsExplained d settings := by
  rcases Except.bind_eq_error.mp h with h | ⟨base, -, h⟩
  · exact resolvePath_error h
  split at h
  · rcases Except.bind_eq_error.mp h with h | ⟨root, -, h⟩
    · exact resolvePath_error h
    · cases h
  · split at h <;> cases h

lemma Module.parent_error {m : Module} (h : m.parent d settings = .error f) :
    f.IsExplained d settings := by
  rcases Except.bind_eq_error.mp h with h | ⟨v, hv, h⟩
  · exact manifest_error h
  rcases Except.bind_eq_error.mp h with h | ⟨about, habout, h⟩
  · exact metadata_error hv h
  · exact fieldOf_metadata_error hv habout h

/-- Where the parent that a module states is read from. -/
lemma Module.parent_eq_ok {m : Module} {parent : Value} (h : m.parent d settings = .ok parent) :
    ∃ v about, manifest d settings m.root = .ok v ∧ metadata settings v = .ok (.table about) ∧
      parent = (Value.lookup? settings.parentKey about).getD .null := by
  obtain ⟨v, hv, h⟩ := Except.bind_eq_ok.mp h
  obtain ⟨about, habout, h⟩ := Except.bind_eq_ok.mp h
  cases about with
  | table fields =>
    cases h
    exact ⟨v, fields, hv, habout, rfl⟩
  | _ => cases h

lemma Module.parentRoot_error {m : Module} (h : m.parentRoot d settings = .error f) :
    f.IsExplained d settings := by
  rcases Except.bind_eq_error.mp h with h | ⟨parent, hparent, h⟩
  · exact parent_error h
  split at h
  · cases h
  rename_i hvoid
  split at h
  · rename_i hno
    cases h
    obtain ⟨v, about, hv, habout, rfl⟩ := parent_eq_ok hparent
    refine .inr (.shape hv fun ⟨_, fields, _, hfields, hgood⟩ => ?_)
    rw [habout] at hfields
    cases hfields
    rw [hno] at hgood
    rcases hgood with hgood | hgood
    · exact hvoid hgood
    · cases hgood
  · rcases Except.bind_eq_error.mp h with h | ⟨⟨found, notes⟩, -, h⟩
    · exact installed_error h
    · cases found <;> cases h

/-- A trail ends with a failure only for a reason. -/
def Trail.IsExplained (d : Disk) (settings : Settings) (trail : Trail) : Prop :=
  ∀ f, trail.failure? = some f → f.IsExplained d settings

lemma fallbackTrail_isExplained (names : List String) (seen : List Path) :
    (fallbackTrail d settings root names seen).IsExplained d settings := by
  induction names generalizing seen with
  | nil => intro f h; cases h
  | cons name rest ih =>
    intro f h
    rw [fallbackTrail] at h
    split at h
    · rename_i hinstalled
      cases h
      exact installed_error hinstalled
    · rw [Trail.failure?_notes] at h
      exact ih seen f h
    · rw [Trail.failure?_notes] at h
      split at h
      · exact ih seen f h
      · exact ih _ f h

lemma parentTrail_isExplained {behind : List Path → Trail}
    (hbehind : ∀ seen, (behind seen).IsExplained d settings) (fuel : Nat) (m : Module)
    (seen : List Path) : (parentTrail d settings behind fuel m seen).IsExplained d settings := by
  induction fuel generalizing m seen with
  | zero => exact hbehind seen
  | succ fuel ih =>
    intro f h
    unfold parentTrail at h
    split at h
    · rename_i hparent
      cases h
      exact Module.parentRoot_error hparent
    · rw [Trail.failure?_notes] at h
      exact hbehind seen f h
    · rw [Trail.failure?_notes] at h
      split at h
      · exact hbehind seen f h
      · have hroot : ∀ (p : Path) (t : Trail), (Trail.root p t).failure? = t.failure? :=
          fun _ _ => rfl
        rw [hroot] at h
        split at h
        · rename_i hmodule
          cases h
          exact moduleAt_error hmodule
        · exact ih _ _ f h

lemma candidates_isExplained (target : Path) : (candidates d settings target).IsExplained d settings := by
  intro f h
  unfold candidates at h
  split at h
  · rename_i hmodule
    cases h
    exact moduleAt_error hmodule
  · exact parentTrail_isExplained (fun seen => fallbackTrail_isExplained _ seen) _ _ _ f h

/-! ## The resource -/

lemma searchTrail_isExplained {type : ResourceType} {name : String} {trail : Trail}
    {searched : List Path} (htrail : trail.IsExplained d settings)
    (h : (searchTrail d settings type name trail searched).2 = .error f) :
    f.IsExplained d settings := by
  obtain ⟨-, hfailure⟩ := searchTrail_error h
  cases hcases : trail.failure? with
  | none =>
    rw [hcases] at hfailure
    cases hfailure
    exact .inl rfl
  | some g =>
    rw [hcases] at hfailure
    cases hfailure
    exact htrail _ hcases

/-- **A resource can be missing** only for a reason that is printed or lies on the disk. -/
theorem locate_error {type : ResourceType} {name : String} {target : Path} {source : Option Path}
    (h : (locate d settings type name target source).2 = .error f) : f.IsExplained d settings := by
  unfold locate at h
  split at h
  · exact searchTrail_isExplained (candidates_isExplained target) h
  · split at h
    · rename_i hroot
      cases h
      exact moduleRoot_error hroot
    · exact searchTrail_isExplained (fun _ h => by cases h) h

lemma canExtend_error {resource source target : Path} {type : ResourceType} {name : String}
    (h : canExtend d resource source target type name = .error f) : f.IsExplained d settings := by
  unfold canExtend at h
  dsimp only [bind] at h
  split at h
  · cases h
  · rcases Except.bind_eq_error.mp h with h | ⟨source, -, h⟩
    · exact resolvePath_error h
    rcases Except.bind_eq_error.mp h with h | ⟨target, -, h⟩
    · exact resolvePath_error h
    · split at h <;> cases h

lemma fileList_error {type : ResourceType} {name : String} {resource : Path}
    (h : fileList d settings type name resource = .error f) : f.IsExplained d settings := by
  unfold fileList at h
  split at h
  · cases h
  · split at h
    · cases h
      exact .inl rfl
    · cases h

/-! ## Where the override goes -/

/-- A module whose name is no text has it from its manifest. -/
lemma blames_of_name_moduleAt {m : Module} (h : moduleAt d settings p = .ok m)
    (hname : m.name.text? = none) : d.Blames settings .textNeeded := by
  obtain ⟨root, -, h⟩ := Except.bind_eq_ok.mp h
  obtain ⟨v, hv, h⟩ := Except.bind_eq_ok.mp h
  obtain ⟨about, -, h⟩ := Except.bind_eq_ok.mp h
  obtain ⟨name, hfield, h⟩ := Except.bind_eq_ok.mp h
  obtain ⟨type, -, h⟩ := Except.bind_eq_ok.mp h
  obtain ⟨aliasName, -, h⟩ := Except.bind_eq_ok.mp h
  cases h
  change (orElse name _).text? = none at hname
  unfold orElse at hname
  split at hname
  · cases hname
  rename_i hvoid
  cases v with
  | table fields =>
    cases hlookup : Value.lookup? "name" fields with
    | none =>
      simp only [fieldOf, hlookup] at hfield
      cases hfield
      exact absurd rfl hvoid
    | some other =>
      simp only [fieldOf, hlookup] at hfield
      cases hfield
      exact .name hv hlookup (Bool.eq_false_iff.mpr hvoid) hname
  | _ => cases hfield

/-- **There can be no place for the override** only for a reason that is printed or lies on the disk,
or if the name of the resource is an absolute path. -/
theorem targetDirectory_error {type : ResourceType} {name : String} {target : Path} {source : Module}
    (hsource : moduleAt d settings p = .ok source)
    (h : targetDirectory d (type.directory name) target source.isExtension source.name = .error f) :
    f.IsExplained d settings ∨ f = .notBelow ∧ (Path.ofString name).isAbsolute = true := by
  rcases Except.bind_eq_error.mp h with h | ⟨root, -, h⟩
  · exact .inl (resolvePath_error h)
  split at h
  · cases h
  split at h
  · rename_i htext
    cases h
    exact .inl (.inr (blames_of_name_moduleAt hsource htext))
  · rcases Except.bind_eq_error.mp h with h | ⟨below, -, h⟩
    · right
      unfold belowSources at h
      split at h
      · cases h
      · rename_i hno
        cases h
        refine ⟨rfl, Decidable.byContradiction fun habsolute => ?_⟩
        have hbelow : ∃ rest, type.directory name = ⟨"", "src" :: rest⟩ := by
          cases type <;> simp [ResourceType.directory, Path.child, Path.join, habsolute]
        obtain ⟨rest, hrest⟩ := hbelow
        exact hno rest (by rw [hrest]) (by rw [hrest])
    · cases h

end

end ThemeOverride
