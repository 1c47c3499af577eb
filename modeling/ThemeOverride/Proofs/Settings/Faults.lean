import Mathlib.Data.List.Nodup
import ThemeOverride.Proofs.Module.Faults

/-!
# What the settings can fail on

Some failures of reading the settings are printed; all others have their cause in a settings file that
is not written as its format asks, or in the environment.

## Main definitions

* `ThemeOverride.settingsPaths` — where the settings may be read from.
* `ThemeOverride.HoldsTable` — the table for the settings in a project file.
* `ThemeOverride.HoldsSettings` — the value that a file holds for the settings.
* `ThemeOverride.SettingsBlame` — a settings file or the environment is the cause of a failure.

## Main results

* `ThemeOverride.settingsOf_error` — what the environment can be the cause of.
* `ThemeOverride.loadSettings_error` — what reading the settings can fail on.
-/

namespace ThemeOverride

/-- Where the settings may be read from: the file that is asked for, or else those with the names that
are looked for in the current directory. -/
def settingsPaths (d : Disk) (config : Option String) : List Path :=
  match config.filter (· != "") with
  | some path => [.ofString path]
  | none => (settingsFiles ++ [projectFile]).map (Path.mk "/" d.here).child

/-- The table for the settings among the tools of a project file. -/
def HoldsTable (d : Disk) (p : Path) (v : Value) : Prop :=
  ∃ s w tools, readText d p = .ok s ∧ Toml.read? s = some w ∧ w.get? "tool" = some (.table tools) ∧
    Value.lookup? "extendgen" tools = some v

/-- The value that a file holds for the settings: the whole of a settings file, or a table among the
tools of a project file. -/
def HoldsSettings (d : Disk) (p : Path) (v : Value) : Prop :=
  ∃ s, readText d p = .ok s ∧
    (Yaml.read s = .ok v ∨ ∃ w tools, Toml.read? s = some w ∧ w.get? "tool" = some (.table tools) ∧
      Value.lookup? "extendgen" tools = some v)

/-- A value is a list of texts. -/
def Value.IsTexts (v : Value) : Prop := ∃ ss : List String, v = .list (ss.map .text)

/-- A variable of an environment for a setting that is a list. -/
def Environment.HasList (env : Environment) (s : String) : Prop :=
  ∃ name key, (name, s) ∈ env ∧ lowerCase name = "extendgen_" ++ (SettingKey.many key).name

/-- **A settings file or the environment is the cause of a failure**: a file that holds no text, is not
written as its format asks, or has something else than texts as names; a project file whose tools are
no table; a variable for a list that holds no JSON or no list of texts. -/
inductive SettingsBlame (d : Disk) (env : Environment) (config : Option String) : Failure → Prop
  | notText {p : Path} (hp : p ∈ settingsPaths d config) (h : d.HoldsNoText p) :
      SettingsBlame d env config .notText
  | yaml {p : Path} {s : String} {stage : YamlStage} (hp : p ∈ settingsPaths d config)
      (h : readText d p = .ok s) (hy : Yaml.read s = .error stage) :
      SettingsBlame d env config (.malformed (.yaml stage))
  | toml {p : Path} {s : String} (hp : p ∈ settingsPaths d config) (h : readText d p = .ok s)
      (ht : Toml.read? s = none) : SettingsBlame d env config (.malformed .toml)
  | tools {p : Path} {s : String} {v : Value} (hp : p ∈ settingsPaths d config)
      (h : readText d p = .ok s) (ht : Toml.read? s = some v)
      (hno : ∀ fields, v.get? "tool" ≠ some (.table fields)) :
      SettingsBlame d env config .textNeeded
  | keys {p : Path} {fields : List (Value × Value)} {field : Value × Value}
      (hp : p ∈ settingsPaths d config) (h : HoldsSettings d p (.table fields)) (hf : field ∈ fields)
      (hkey : field.1.text? = none) : SettingsBlame d env config .textNeeded
  | variable {s : String} (h : env.HasList s) (hj : Json.read? s = none) :
      SettingsBlame d env config (.malformed .variable)
  | list {s : String} {v : Value} {problems : List SettingProblem} (h : env.HasList s)
      (hj : Json.read? s = some v) (hv : ¬ v.IsTexts) :
      SettingsBlame d env config (.settingProblems none problems)

/-! ## Keys -/

namespace SettingKey

lemma mem_all (key : SettingKey) : key ∈ all := by
  cases key with
  | one key => cases key <;> decide
  | many key => cases key <;> decide

lemma lowerCase_name (key : SettingKey) : lowerCase key.name = key.name :=
  (by decide : ∀ key ∈ all, lowerCase key.name = key.name) key key.mem_all

lemma eq_of_name_eq {a b : SettingKey} (h : a.name = b.name) : a = b :=
  List.inj_on_of_nodup_map (by decide : (all.map name).Nodup) a.mem_all b.mem_all h

end SettingKey

/-! ## The environment -/

section

variable {env : Environment} {f : Failure}

lemma Environment.value?_error {key : SettingKey} (h : env.value? key = .error f) :
    f = .malformed .variable ∧ ∃ s, env.HasList s ∧ Json.read? s = none := by
  unfold Environment.value? at h
  split at h
  · cases h
  · rename_i name s hlast
    obtain ⟨hmem, hname⟩ := List.mem_filter.mp (List.mem_of_getLast? hlast)
    split at h
    · cases h
    · rename_i key
      split at h
      · rename_i hj
        cases h
        exact ⟨rfl, s, ⟨name, key, hmem, by simpa using hname⟩, hj⟩
      · cases h
      · cases h

/-- What an environment holds for a setting: a text, or what a list is written as. -/
lemma Environment.value?_eq_some {key : SettingKey} {v : Value} (h : env.value? key = .ok (some v)) :
    (∃ s k, key = .one k ∧ v = .text s) ∨
      ∃ s k, key = .many k ∧ env.HasList s ∧ Json.read? s = some v := by
  unfold Environment.value? at h
  split at h
  · cases h
  · rename_i name s hlast
    obtain ⟨hmem, hname⟩ := List.mem_filter.mp (List.mem_of_getLast? hlast)
    split at h
    · rename_i k
      cases h
      exact .inl ⟨s, k, rfl, rfl⟩
    · rename_i k
      split at h
      · cases h
      · cases h
      · rename_i hj
        cases h
        exact .inr ⟨s, k, rfl, ⟨name, k, hmem, by simpa using hname⟩, hj⟩

lemma environmentLayer_error {keys : List SettingKey} (h : environmentLayer env keys = .error f) :
    f = .malformed .variable ∧ ∃ s, env.HasList s ∧ Json.read? s = none := by
  induction keys with
  | nil => cases h
  | cons key rest ih =>
    rcases Except.bind_eq_error.mp h with h | ⟨v, -, h⟩
    · exact env.value?_error h
    · cases hrest : environmentLayer env rest with
      | error g =>
        rw [hrest] at h
        cases h
        exact ih hrest
      | ok layer =>
        rw [hrest] at h
        cases h

/-- The layer of an environment holds the values of the environment, by the names of their keys. -/
lemma exists_of_mem_environmentLayer {keys : List SettingKey} {layer : Layer} {name : String} {v : Value}
    (h : environmentLayer env keys = .ok layer) (hm : (name, v) ∈ layer) :
    ∃ key, name = key.name ∧ env.value? key = .ok (some v) := by
  induction keys generalizing layer with
  | nil =>
    cases h
    cases hm
  | cons key rest ih =>
    obtain ⟨value, hvalue, h⟩ := Except.bind_eq_ok.mp h
    cases hrest : environmentLayer env rest with
    | error g =>
      rw [hrest] at h
      cases h
    | ok below =>
      rw [hrest] at h
      cases h
      rcases List.mem_append.mp hm with hm | hm
      · cases value with
        | none => cases hm
        | some w =>
          obtain ⟨rfl, rfl⟩ := Prod.mk.inj (List.mem_singleton.mp hm)
          exact ⟨key, rfl, hvalue⟩
      · exact ih hrest hm

/-- The value that such a layer has for a key is that of the environment. -/
lemma value?_of_environmentLayer {keys : List SettingKey} {layer : Layer} {key : SettingKey} {v : Value}
    (h : environmentLayer env keys = .ok layer) (hv : layer.value? key = some v) :
    env.value? key = .ok (some v) := by
  obtain ⟨name, hm, hname⟩ : ∃ name, (name, v) ∈ layer ∧ lowerCase name = key.name := by
    unfold Layer.value? at hv
    rcases Option.or_eq_some_iff.mp hv with hv | ⟨-, hv⟩
    · obtain ⟨l₁, l₂, rfl, -⟩ := List.lookup_eq_some_iff.mp hv
      exact ⟨key.name, by simp, key.lowerCase_name⟩
    · obtain ⟨⟨name, w⟩, hfind, rfl⟩ := Option.map_eq_some_iff.mp hv
      exact ⟨name, List.mem_of_find?_eq_some hfind, by simpa using List.find?_some hfind⟩
  obtain ⟨other, rfl, hvalue⟩ := exists_of_mem_environmentLayer h hm
  rw [other.lowerCase_name] at hname
  rw [← SettingKey.eq_of_name_eq hname]
  exact hvalue

lemma checkElements_texts (name : String) (n : Nat) (ss : List String) :
    checkElements name n (ss.map .text) = .ok ss := by
  induction ss generalizing n with
  | nil => rfl
  | cons s ss ih => simp [checkElements, ih, Value.text?]

/-- **An environment whose lists are lists of texts** has nothing wrong with it. -/
theorem checkSettings_environmentLayer {layer : Layer}
    (h : environmentLayer env SettingKey.all = .ok layer)
    (hlists : ∀ s v, env.HasList s → Json.read? s = some v → v.IsTexts) :
    ∃ settings, checkSettings layer = .ok settings := by
  have htext : ∀ key default, ∃ s, checkText layer key default = .ok s := by
    intro key default
    unfold checkText
    split
    · exact ⟨_, rfl⟩
    · exact ⟨_, rfl⟩
    · rename_i v hno hv
      rcases Environment.value?_eq_some (value?_of_environmentLayer h hv) with
        ⟨s, _, _, rfl⟩ | ⟨_, _, hkey, _⟩
      · exact absurd rfl (hno s)
      · cases hkey
  have hlist : ∀ key default, ∃ ss, checkList layer key default = .ok ss := by
    intro key default
    unfold checkList
    split
    · exact ⟨_, rfl⟩
    · rename_i elements hv
      rcases Environment.value?_eq_some (value?_of_environmentLayer h hv) with
        ⟨_, _, hkey, _⟩ | ⟨s, _, _, hs, hj⟩
      · cases hkey
      · obtain ⟨ss, hss⟩ := hlists s _ hs hj
        cases hss
        exact ⟨ss, checkElements_texts _ 0 ss⟩
    · rename_i v hno hv
      rcases Environment.value?_eq_some (value?_of_environmentLayer h hv) with
        ⟨_, _, hkey, _⟩ | ⟨s, _, _, hs, hj⟩
      · cases hkey
      · obtain ⟨ss, rfl⟩ := hlists s v hs hj
        exact absurd rfl (hno _)
  have hunknown : layer.unknown = [] := by
    refine List.filter_eq_nil_iff.mpr fun name hname => ?_
    obtain ⟨⟨name, v⟩, hm, rfl⟩ := List.mem_map.mp hname
    obtain ⟨key, rfl, -⟩ := exists_of_mem_environmentLayer h hm
    rw [Bool.not_eq_true', Bool.not_eq_false]
    exact List.any_eq_true.mpr ⟨key, key.mem_all, by simp [key.lowerCase_name]⟩
  obtain ⟨marker, hmarker⟩ := htext .markerFile ({} : Settings).markerFile
  obtain ⟨metadata, hmetadata⟩ := htext .metadataKey ({} : Settings).metadataKey
  obtain ⟨parent, hparent⟩ := htext .parentKey ({} : Settings).parentKey
  obtain ⟨aliasKey, haliasKey⟩ := htext .aliasKey ({} : Settings).aliasKey
  obtain ⟨type, htype⟩ := htext .defaultModuleType ({} : Settings).defaultModuleType
  obtain ⟨fallback, hfallback⟩ := hlist .fallbackModules ({} : Settings).fallbackModules
  obtain ⟨extensions, hextensions⟩ := hlist .scriptExtensions ({} : Settings).scriptExtensions
  obtain ⟨style, hstyle⟩ := htext .styleExtension ({} : Settings).styleExtension
  obtain ⟨lint, hlint⟩ := hlist .lintCommand ({} : Settings).lintCommand
  refine ⟨⟨marker, metadata, parent, aliasKey, type, fallback, extensions, style, lint⟩, ?_⟩
  unfold checkSettings
  simp only [hmarker, hmetadata, hparent, haliasKey, htype, hfallback, hextensions, hstyle, hlint,
    hunknown]

/-- **What the environment can be the cause of**, below a layer or alone. -/
theorem settingsOf_error {d : Disk} {config : Option String} {layer : Layer} {path : Option String}
    (hpath : path = none → layer = []) (h : settingsOf env layer path = .error f) :
    f.isPrinted = true ∨ SettingsBlame d env config f := by
  rcases Except.bind_eq_error.mp h with h | ⟨below, hbelow, h⟩
  · obtain ⟨rfl, s, hs, hj⟩ := environmentLayer_error h
    exact .inr (.variable hs hj)
  · split at h
    · cases h
    · rename_i problems hproblems
      cases h
      cases path with
      | some path => exact .inl rfl
      | none =>
        rw [hpath rfl] at hproblems
        have hlayer : Layer.over [] below = below := by simp [Layer.over]
        rw [hlayer] at hproblems
        refine .inr (Classical.byContradiction fun hno => ?_)
        obtain ⟨settings, hsettings⟩ := checkSettings_environmentLayer hbelow fun s v hs hj =>
          Classical.byContradiction fun hv => hno (.list hs hj hv)
        rw [hsettings] at hproblems
        cases hproblems

end

/-! ## Settings files -/

section

variable {d : Disk} {env : Environment} {config : Option String} {f : Failure} {p : Path}

lemma readSettingsFile_error (hp : p ∈ settingsPaths d config) (h : readSettingsFile d p = .error f) :
    f.isPrinted = true ∨ SettingsBlame d env config f := by
  rcases Except.bind_eq_error.mp h with h | ⟨s, hread, h⟩
  · exact (readText_error h).imp_right fun ⟨hf, hno⟩ => hf ▸ .notText hp hno
  · split at h
    · rename_i hy
      cases h
      exact .inr (.yaml hp hread hy)
    · cases h

/-- A settings file that can be read holds its settings, or nothing. -/
lemma readSettingsFile_ok {v : Value} (h : readSettingsFile d p = .ok v) :
    v = .table [] ∨ HoldsSettings d p v := by
  obtain ⟨s, hread, h⟩ := Except.bind_eq_ok.mp h
  split at h
  · cases h
  · rename_i w hy
    cases h
    split
    · exact .inl rfl
    · exact .inr ⟨s, hread, .inl hy⟩

lemma toolTable?_error {tools : Value} (h : toolTable? tools = .error f) :
    f = .textNeeded ∧ ∀ fields, tools ≠ .table fields := by
  unfold toolTable? at h
  split at h
  · cases h
  · split at h <;> cases h
    exact ⟨rfl, fun _ => by simp⟩
  · split at h <;> cases h
    exact ⟨rfl, fun _ => by simp⟩
  · rename_i hno _ _
    cases h
    exact ⟨rfl, hno⟩

lemma readProjectFile_error (hp : p ∈ settingsPaths d config) (h : readProjectFile d p = .error f) :
    f.isPrinted = true ∨ SettingsBlame d env config f := by
  rcases Except.bind_eq_error.mp h with h | ⟨s, hread, h⟩
  · exact (readText_error h).imp_right fun ⟨hf, hno⟩ => hf ▸ .notText hp hno
  · split at h
    · rename_i ht
      cases h
      exact .inr (.toml hp hread ht)
    · rename_i v ht
      obtain ⟨rfl, hno⟩ := toolTable?_error h
      refine .inr (.tools hp hread ht fun fields hfields => hno fields ?_)
      rw [hfields]
      rfl

/-- The table of a project file is what is read from it. -/
lemma readProjectFile_eq_some_iff {v : Value} : readProjectFile d p = .ok (some v) ↔ HoldsTable d p v := by
  constructor
  · intro h
    obtain ⟨s, hread, h⟩ := Except.bind_eq_ok.mp h
    split at h
    · cases h
    · rename_i w ht
      cases htool : w.get? "tool" with
      | none =>
        rw [htool] at h
        cases h
      | some tools =>
        rw [htool, Option.getD_some] at h
        unfold toolTable? at h
        split at h
        · rename_i fields
          exact ⟨s, w, fields, hread, ht, htool, Except.ok.inj h⟩
        · split at h <;> cases h
        · split at h <;> cases h
        · cases h
  · rintro ⟨s, w, tools, hread, ht, htool, hv⟩
    refine Except.bind_eq_ok.mpr ⟨s, hread, ?_⟩
    simp [ht, htool, toolTable?, hv]

/-- A project file that can be read holds the settings that are taken from it. -/
lemma readProjectFile_ok {v : Value} (h : readProjectFile d p = .ok (some v)) : HoldsSettings d p v := by
  obtain ⟨s, w, tools, hread, ht, htool, hv⟩ := readProjectFile_eq_some_iff.mp h
  exact ⟨s, hread, .inr ⟨w, tools, ht, htool, hv⟩⟩

/-- A value whose names are not all texts makes no layer; other values that make none are printed. -/
lemma layerOf_error {v : Value} {path : String} (h : layerOf v path = .error f) :
    f.isPrinted = true ∨
      f = .textNeeded ∧ ∃ fields, v = .table fields ∧ ∃ field ∈ fields, field.1.text? = none := by
  unfold layerOf at h
  split at h
  · rename_i fields
    split at h
    · cases h
    · rename_i hall
      cases h
      rw [List.all_eq_true] at hall
      obtain ⟨field, hfield⟩ := Classical.not_forall.mp hall
      obtain ⟨hmem, hkey⟩ := Classical.not_imp.mp hfield
      exact .inr ⟨rfl, fields, rfl, field, hmem, by simpa using hkey⟩
  · cases h
    exact .inl rfl

/-- **Where the settings come from**: a settings file or a project file at one of the paths where they
may be read from, or nothing but the environment. -/
lemma settingsSource_cases (d : Disk) (config : Option String) :
    (∃ p ∈ settingsPaths d config, ∃ path,
      settingsSource d config = (readSettingsFile d p).map (.file path)) ∨
    (∃ p ∈ settingsPaths d config, ∃ path, settingsSource d config =
      (readProjectFile d p).map fun v => (v.map (SettingsSource.file path)).getD .none) ∨
    settingsSource d config = .ok .none ∨
    ∃ message path, settingsSource d config = .error (.settings message path none) := by
  unfold settingsSource settingsPaths
  cases config.filter (· != "") with
  | some path =>
    by_cases hexists : d.exists (.ofString path) = true
    · exact .inl ⟨_, List.mem_singleton_self _, path, by simp [hexists]⟩
    · exact .inr (.inr (.inr ⟨"Configuration file not found", some path, by simp [hexists]⟩))
  | none =>
    dsimp only
    split
    · rename_i p hfind
      have hmem : p ∈ settingsFiles.map (Path.mk "/" d.here).child := List.mem_of_find?_eq_some hfind
      exact .inl ⟨p, by rw [List.map_append]; exact List.mem_append_left _ hmem, _, rfl⟩
    · split
      · exact .inr (.inl ⟨_, by simp, _, rfl⟩)
      · exact .inr (.inr (.inl rfl))

lemma settingsSource_error (h : settingsSource d config = .error f) :
    f.isPrinted = true ∨ SettingsBlame d env config f := by
  rcases settingsSource_cases d config with
    ⟨p, hp, path, heq⟩ | ⟨p, hp, path, heq⟩ | heq | ⟨message, path, heq⟩
  · rw [heq] at h
    cases hread : readSettingsFile d p with
    | ok v =>
      rw [hread] at h
      cases h
    | error g =>
      rw [hread] at h
      cases h
      exact readSettingsFile_error hp hread
  · rw [heq] at h
    cases hread : readProjectFile d p with
    | ok v =>
      rw [hread] at h
      cases h
    | error g =>
      rw [hread] at h
      cases h
      exact readProjectFile_error hp hread
  · rw [heq] at h
    cases h
  · rw [heq] at h
    cases h
    exact .inl rfl

/-- The settings that come from a file are held by it, if they are not empty. -/
lemma settingsSource_ok {path : String} {v : Value} (h : settingsSource d config = .ok (.file path v)) :
    v = .table [] ∨ ∃ p ∈ settingsPaths d config, HoldsSettings d p v := by
  rcases settingsSource_cases d config with
    ⟨p, hp, path, heq⟩ | ⟨p, hp, path, heq⟩ | heq | ⟨message, path, heq⟩
  · rw [heq] at h
    cases hread : readSettingsFile d p with
    | error g =>
      rw [hread] at h
      cases h
    | ok w =>
      rw [hread] at h
      cases h
      exact (readSettingsFile_ok hread).imp_right fun hholds => ⟨p, hp, hholds⟩
  · rw [heq] at h
    cases hread : readProjectFile d p with
    | error g =>
      rw [hread] at h
      cases h
    | ok w =>
      rw [hread] at h
      cases w with
      | none => cases h
      | some w =>
        cases h
        exact .inr ⟨p, hp, readProjectFile_ok hread⟩
  · rw [heq] at h
    cases h
  · rw [heq] at h
    cases h

/-- **Reading the settings can fail** only for a reason that is printed, or lies in a settings file or the
environment. -/
theorem loadSettings_error (h : loadSettings d env config = .error f) :
    f.isPrinted = true ∨ SettingsBlame d env config f := by
  rcases Except.bind_eq_error.mp h with h | ⟨source, hsource, h⟩
  · exact settingsSource_error h
  split at h
  · exact settingsOf_error (fun _ => rfl) h
  · rcases Except.bind_eq_error.mp h with h | ⟨layer, -, h⟩
    · refine (layerOf_error h).imp_right ?_
      rintro ⟨rfl, fields, rfl, field, hmem, hkey⟩
      rcases settingsSource_ok hsource with hempty | ⟨p, hp, hholds⟩
      · cases hempty
        cases hmem
      · exact .keys hp hholds hmem hkey
    · exact settingsOf_error (fun hnone => by cases hnone) h

end

end ThemeOverride
