import Mathlib.Data.List.Find
import ThemeOverride.Proofs.Disk.LinkFree
import ThemeOverride.Proofs.Disk.Rewrite
import ThemeOverride.Proofs.Settings.Faults

/-!
# Which settings count

The settings come from one file at most: the one that is asked for, or the first there is of those that
are looked for. Each of them is taken from there, or else from the environment, or else it has its
default. What lies behind the file that is used does not count.

## Main definitions

* `ThemeOverride.SettingsFrom` — where the settings come from.
* `ThemeOverride.Settings.value` — the value of a setting.
* `ThemeOverride.Consults` — what is looked at for the settings.

## Main results

* `ThemeOverride.settingsSource_eq_ok_iff` — where the settings come from is found.
* `ThemeOverride.checkSettings_eq_ok` — each setting has the value of its layer, or its default.
* `ThemeOverride.loadSettings_layers` — the layers of the settings, and what does not count.
-/

namespace ThemeOverride

/-! ## Where the settings come from -/

/-- A file in the current directory. -/
def fileHere (d : Disk) (name : String) : Path := Path.child ⟨"/", d.here⟩ name

/-- **Where the settings come from**, besides the environment. A path that is empty asks for nothing. -/
inductive SettingsFrom (d : Disk) (config : Option String) : SettingsSource → Prop
  /-- The file that is asked for. -/
  | asked {path : String} {v : Value} (hpath : config = some path) (hne : path ≠ "")
      (hexists : d.exists (.ofString path) = true)
      (hread : readSettingsFile d (.ofString path) = .ok v) : SettingsFrom d config (.file path v)
  /-- The first settings file there is. -/
  | found {before after : List String} {name : String} {v : Value}
      (hpath : ∀ path, config = some path → path = "") (hnames : settingsFiles = before ++ name :: after)
      (hbefore : ∀ other ∈ before, d.exists (fileHere d other) = false)
      (hexists : d.exists (fileHere d name) = true)
      (hread : readSettingsFile d (fileHere d name) = .ok v) :
      SettingsFrom d config (.file (fileHere d name).toString v)
  /-- The table of a project file. -/
  | project {v : Value} (hpath : ∀ path, config = some path → path = "")
      (hnone : ∀ name ∈ settingsFiles, d.exists (fileHere d name) = false)
      (hexists : d.exists (fileHere d projectFile) = true)
      (htable : HoldsTable d (fileHere d projectFile) v) :
      SettingsFrom d config (.file (fileHere d projectFile).toString v)
  /-- No file. There may be a project file without such a table. -/
  | nothing (hpath : ∀ path, config = some path → path = "")
      (hnone : ∀ name ∈ settingsFiles, d.exists (fileHere d name) = false)
      (hproject : d.exists (fileHere d projectFile) = true →
        readProjectFile d (fileHere d projectFile) = .ok none) :
      SettingsFrom d config .none

section

variable {d d' : Disk} {env : Environment} {config : Option String} {p : Path} {v : Value}
  {source : SettingsSource}

lemma filter_eq_none_iff : config.filter (· != "") = none ↔ ∀ path, config = some path → path = "" := by
  cases config with
  | none => simp
  | some path => simp [Option.filter]

lemma settingsSource_of_nothing_asked (h : ∀ path, config = some path → path = "") :
    settingsSource d config =
      match settingsFiles.find? fun name => d.exists (fileHere d name) with
      | some name => (readSettingsFile d (fileHere d name)).map (.file (fileHere d name).toString)
      | none =>
        if d.exists (fileHere d projectFile) then
          (readProjectFile d (fileHere d projectFile)).map fun v =>
            (v.map (SettingsSource.file (fileHere d projectFile).toString)).getD .none
        else .ok .none := by
  have hfind : (settingsFiles.map (Path.mk "/" d.here).child).find? d.exists =
      (settingsFiles.find? fun name => d.exists (fileHere d name)).map (fileHere d) := List.find?_map
  unfold settingsSource
  rw [filter_eq_none_iff.mpr h]
  dsimp only
  rw [hfind]
  cases settingsFiles.find? fun name => d.exists (fileHere d name) <;> rfl

lemma settingsSource_of_asked {path : String} (hpath : config = some path) (hne : path ≠ "") :
    settingsSource d config =
      if d.exists (.ofString path) then (readSettingsFile d (.ofString path)).map (.file path)
      else .error (.settings "Configuration file not found" (some path) none) := by
  have hfilter : config.filter (· != "") = some path := by simp [hpath, Option.filter, hne]
  unfold settingsSource
  rw [hfilter]

/-- **Where the settings come from is found**, if it can be read. -/
theorem settingsSource_eq_ok_iff : settingsSource d config = .ok source ↔ SettingsFrom d config source := by
  constructor
  · intro h
    by_cases hpath : ∀ path, config = some path → path = ""
    · rw [settingsSource_of_nothing_asked hpath] at h
      split at h
      · rename_i name hfind
        obtain ⟨v, hread, rfl⟩ := Except.map_eq_ok.mp h
        obtain ⟨hexists, before, after, hnames, hbefore⟩ := List.find?_eq_some_iff_append.mp hfind
        exact .found hpath hnames (fun other hother => by simpa using hbefore other hother) hexists hread
      · rename_i hfind
        have hnone : ∀ name ∈ settingsFiles, d.exists (fileHere d name) = false := by
          simpa using List.find?_eq_none.mp hfind
        split at h
        · rename_i hexists
          obtain ⟨v, hread, rfl⟩ := Except.map_eq_ok.mp h
          cases v with
          | none => exact .nothing hpath hnone fun _ => hread
          | some v => exact .project hpath hnone hexists (readProjectFile_eq_some_iff.mp hread)
        · rename_i hexists
          cases h
          exact .nothing hpath hnone fun he => absurd he hexists
    · push Not at hpath
      obtain ⟨path, hpath, hne⟩ := hpath
      rw [settingsSource_of_asked hpath hne] at h
      split at h
      · rename_i hexists
        obtain ⟨v, hread, rfl⟩ := Except.map_eq_ok.mp h
        exact .asked hpath hne hexists hread
      · cases h
  · intro h
    cases h with
    | asked hpath hne hexists hread =>
      rw [settingsSource_of_asked hpath hne, if_pos hexists, hread]
      rfl
    | @found before after name v hpath hnames hbefore hexists hread =>
      have hfind : (settingsFiles.find? fun name => d.exists (fileHere d name)) = some name :=
        List.find?_eq_some_iff_append.mpr ⟨hexists, before, after, hnames, by simpa using hbefore⟩
      rw [settingsSource_of_nothing_asked hpath, hfind]
      dsimp only
      rw [hread]
      rfl
    | project hpath hnone hexists htable =>
      have hfind : (settingsFiles.find? fun name => d.exists (fileHere d name)) = none :=
        List.find?_eq_none.mpr (by simpa using hnone)
      rw [settingsSource_of_nothing_asked hpath, hfind]
      dsimp only
      rw [if_pos hexists, readProjectFile_eq_some_iff.mpr htable]
      rfl
    | nothing hpath hnone hproject =>
      have hfind : (settingsFiles.find? fun name => d.exists (fileHere d name)) = none :=
        List.find?_eq_none.mpr (by simpa using hnone)
      rw [settingsSource_of_nothing_asked hpath, hfind]
      dsimp only
      split
      · rename_i hexists
        rw [hproject hexists]
        rfl
      · rfl

end

/-! ## What is looked at -/

/-- A path is looked at for the settings if nothing lies at those that are looked for before it. -/
def Consults (d : Disk) (config : Option String) (p : Path) : Prop :=
  ∃ before after, settingsPaths d config = before ++ p :: after ∧ ∀ other ∈ before, d.exists other = false

section

variable {d d' : Disk} {env : Environment} {config : Option String} {p : Path}

lemma readText_congr (h : d'.read p = d.read p) : readText d' p = readText d p := by
  unfold readText
  rw [h]

lemma settingsPaths_of_nothing_asked (hpath : ∀ path, config = some path → path = "") :
    settingsPaths d config = (settingsFiles ++ [projectFile]).map (fileHere d) := by
  unfold settingsPaths
  rw [filter_eq_none_iff.mpr hpath]
  rfl

/-- A name is looked at if there is no file of the names before it. -/
lemma consults_fileHere (before after : List String) {name : String}
    (hpath : ∀ path, config = some path → path = "")
    (hnames : settingsFiles ++ [projectFile] = before ++ name :: after)
    (hbefore : ∀ other ∈ before, d.exists (fileHere d other) = false) :
    Consults d config (fileHere d name) := by
  refine ⟨before.map (fileHere d), after.map (fileHere d), ?_, ?_⟩
  · rw [settingsPaths_of_nothing_asked hpath, hnames, List.map_append, List.map_cons]
  · simpa using hbefore

/-- The first file there is depends on the names up to it. -/
lemma find?_congr_of_consults (hpath : ∀ path, config = some path → path = "")
    (h : ∀ p, Consults d config p → d'.exists p = d.exists p) (names before after : List String)
    (hnames : settingsFiles ++ [projectFile] = before ++ names ++ after)
    (hbefore : ∀ other ∈ before, d.exists (fileHere d other) = false) :
    names.find? (fun name => d'.exists (fileHere d name)) =
      names.find? fun name => d.exists (fileHere d name) := by
  induction names generalizing before with
  | nil => rw [List.find?_nil, List.find?_nil]
  | cons name names ih =>
    have hname : Consults d config (fileHere d name) :=
      consults_fileHere before (names ++ after) hpath (by simpa using hnames) hbefore
    rw [List.find?_cons, List.find?_cons, h _ hname]
    cases hexists : d.exists (fileHere d name) with
    | true => dsimp only
    | false =>
      refine ih (before ++ [name]) (by simpa using hnames) fun other hother => ?_
      rcases List.mem_append.mp hother with hother | hother
      · exact hbefore other hother
      · rwa [List.mem_singleton.mp hother]

/-- What is read depends on what is looked at alone. -/
lemma settingsSource_congr (hhere : d'.here = d.here)
    (h : ∀ p, Consults d config p → d'.exists p = d.exists p ∧ d'.read p = d.read p) :
    settingsSource d' config = settingsSource d config := by
  have hreadFile : ∀ p, Consults d config p → readSettingsFile d' p = readSettingsFile d p := by
    intro p hp
    unfold readSettingsFile
    rw [readText_congr (h p hp).2]
  by_cases hpath : ∀ path, config = some path → path = ""
  · have hfile : fileHere d' = fileHere d := by
      unfold fileHere
      rw [hhere]
    have hfind : settingsFiles.find? (fun name => d'.exists (fileHere d name)) =
        settingsFiles.find? fun name => d.exists (fileHere d name) :=
      find?_congr_of_consults hpath (fun p hp => (h p hp).1) settingsFiles [] [projectFile]
        (by rw [List.nil_append]) (by simp)
    rw [settingsSource_of_nothing_asked hpath, settingsSource_of_nothing_asked hpath, hfile, hfind]
    cases hfound : settingsFiles.find? fun name => d.exists (fileHere d name) with
    | some name =>
      obtain ⟨-, before, after, hnames, hbefore⟩ := List.find?_eq_some_iff_append.mp hfound
      have hname : Consults d config (fileHere d name) :=
        consults_fileHere before (after ++ [projectFile]) hpath
          (by rw [hnames]; simp) (by simpa using hbefore)
      dsimp only
      rw [hreadFile _ hname]
    | none =>
      have hproject : Consults d config (fileHere d projectFile) :=
        consults_fileHere settingsFiles [] hpath rfl (by simpa using List.find?_eq_none.mp hfound)
      have hread : readProjectFile d' (fileHere d projectFile) =
          readProjectFile d (fileHere d projectFile) := by
        unfold readProjectFile
        rw [readText_congr (h _ hproject).2]
      dsimp only
      rw [(h _ hproject).1, hread]
  · push Not at hpath
    obtain ⟨path, hpath, hne⟩ := hpath
    have hasked : Consults d config (.ofString path) := by
      refine ⟨[], [], ?_, by simp⟩
      simp [settingsPaths, hpath, Option.filter, hne]
    rw [settingsSource_of_asked hpath hne, settingsSource_of_asked hpath hne, (h _ hasked).1,
      hreadFile _ hasked]

/-- **The settings depend on what is looked at alone.** -/
theorem loadSettings_congr (hhere : d'.here = d.here)
    (h : ∀ p, Consults d config p → d'.exists p = d.exists p ∧ d'.read p = d.read p) :
    loadSettings d' env config = loadSettings d env config := by
  unfold loadSettings
  rw [settingsSource_congr hhere h]

end

/-! ## Files of other names -/

namespace Disk

variable {d d' : Disk} {place : Place} {name : String}

/-- A name in an open place leads to what lies there, if that is no link. -/
lemma IsOpen.follow_name (h : d.IsOpen place) (hup : name ≠ "..")
    (hlink : ∀ target, d.node? (place ++ [name]) ≠ some (.link target)) :
    d.follow true ⟨"/", place ++ [name]⟩ = .ok (match d.node? (place ++ [name]) with
      | some node => .node (place ++ [name]) node
      | none => .vacant (place ++ [name])) := by
  unfold Disk.follow
  rw [start_of_isAbsolute rfl, followLinks_eq]
  change d.followNames _ true [] (place ++ [name]) = _
  rw [h.followNames_append, followNames, if_neg (by simpa using hup)]
  dsimp only
  cases hn : d.node? (place ++ [name]) with
  | none => rfl
  | some node =>
    cases node with
    | directory => rfl
    | file content => rfl
    | link target => exact absurd hn (hlink target)

/-- Where an open place and a name in it hold the same, the name leads to the same. -/
lemma IsOpen.follow_congr (h : d.IsOpen place) (hup : name ≠ "..")
    (hlink : ∀ target, d.node? (place ++ [name]) ≠ some (.link target))
    (hsame : ∀ q, q <+: place ++ [name] → d'.node? q = d.node? q) :
    d'.follow true ⟨"/", place ++ [name]⟩ = d.follow true ⟨"/", place ++ [name]⟩ := by
  have hname := hsame _ (List.prefix_refl _)
  have hopen : d'.IsOpen place := ⟨h.noUp, fun above ha => by
    rw [hsame above (ha.trans (List.prefix_append _ _)), h.directory above ha]⟩
  rw [h.follow_name hup hlink, hopen.follow_name hup (by rwa [hname]), hname]

end Disk

section

variable {d d' : Disk} {env : Environment} {config : Option String} {before lower : List String}
  {used : String}

lemma fileHere_eq {name : String} (h : name ∈ settingsFiles ++ [projectFile]) :
    fileHere d name = ⟨"/", d.here ++ [name]⟩ := by
  have hname : ∀ name ∈ settingsFiles ++ [projectFile], Path.ofString name = ⟨"", [name]⟩ := by decide
  have hrelative : (Path.mk "" [name]).isAbsolute = false := rfl
  simp [fileHere, Path.child, Path.join, hname name h, hrelative]

/-- **Files of lower precedence do not count**: whatever lies at or below their places. -/
lemma loadSettings_of_lower (hpath : ∀ path, config = some path → path = "") (hopen : d.IsOpen d.here)
    (hnames : settingsFiles ++ [projectFile] = before ++ used :: lower)
    (hused : d.exists (fileHere d used) = true)
    (hlink : ∀ name ∈ before ++ [used], ∀ target, d.node? (d.here ++ [name]) ≠ some (.link target))
    (hhere : d'.here = d.here)
    (hsame : ∀ q, (∀ name ∈ lower, ¬ d.here ++ [name] <+: q) → d'.node? q = d.node? q) :
    loadSettings d' env config = loadSettings d env config := by
  have hnodup : (before ++ used :: lower).Nodup := hnames ▸ (by decide)
  have hpaths : settingsPaths d config = (before ++ used :: lower).map (fileHere d) :=
    hnames ▸ settingsPaths_of_nothing_asked hpath
  have hfollow : ∀ name ∈ before ++ [used],
      d'.follow true (fileHere d name) = d.follow true (fileHere d name) := by
    intro name hname
    have hmem : name ∈ settingsFiles ++ [projectFile] := by
      rw [hnames]
      simp only [List.mem_append, List.mem_cons] at hname ⊢
      tauto
    have hup : name ≠ ".." := by
      rintro rfl
      exact absurd hmem (by decide)
    rw [fileHere_eq hmem]
    refine hopen.follow_congr hup (hlink name hname) fun q hq => hsame q fun other hother habove => ?_
    -- the place of a lower file is that of no other
    have hsingle : [other] <+: [name] := (List.prefix_append_right_inj _).mp (habove.trans hq)
    obtain rfl : other = name := by simpa using hsingle
    have hdisjoint := (List.nodup_append.mp hnodup).2.2
    rcases List.mem_append.mp hname with hname | hname
    · exact hdisjoint other hname other (List.mem_cons_of_mem _ hother) rfl
    · rw [List.mem_singleton.mp hname] at hother
      exact (List.nodup_cons.mp (List.nodup_append.mp hnodup).2.1).1 hother
  refine loadSettings_congr hhere fun p ⟨earlier, later, hsplit, hearlier⟩ => ?_
  -- nothing behind the file that is used is looked at
  obtain ⟨name, hname, rfl⟩ : ∃ name ∈ before ++ [used], p = fileHere d name := by
    rw [hpaths, List.map_append, List.map_cons] at hsplit
    rcases List.append_eq_append_iff.mp hsplit with ⟨more, rfl, hrest⟩ | ⟨more, hmore, hrest⟩
    · cases more with
      | nil =>
        obtain ⟨rfl, -⟩ := List.cons.inj hrest
        exact ⟨used, by simp, rfl⟩
      | cons first more =>
        obtain ⟨rfl, -⟩ := List.cons.inj hrest
        rw [hearlier _ (by simp)] at hused
        cases hused
    · cases more with
      | nil =>
        obtain ⟨rfl, -⟩ := List.cons.inj hrest
        exact ⟨used, by simp, rfl⟩
      | cons first more =>
        obtain ⟨rfl, -⟩ := List.cons.inj hrest
        obtain ⟨name, hname, hp⟩ : ∃ name ∈ before, fileHere d name = p :=
          List.mem_map.mp (by rw [hmore]; simp)
        exact ⟨name, List.mem_append_left _ hname, hp.symm⟩
  constructor
  · rw [Disk.«exists», Disk.nodeAt?, hfollow name hname]
    rfl
  · rw [Disk.read, hfollow name hname]
    rfl

end

/-! ## Values -/

/-- **The value of a setting.** -/
def Settings.value (settings : Settings) : SettingKey → Value
  | .one .markerFile => .text settings.markerFile
  | .one .metadataKey => .text settings.metadataKey
  | .one .parentKey => .text settings.parentKey
  | .one .aliasKey => .text settings.aliasKey
  | .one .defaultModuleType => .text settings.defaultModuleType
  | .one .styleExtension => .text settings.styleExtension
  | .many .fallbackModules => .list (settings.fallbackModules.map .text)
  | .many .scriptExtensions => .list (settings.scriptExtensions.map .text)
  | .many .lintCommand => .list (settings.lintCommand.map .text)

/-- A source makes up a layer: a table of which all names are texts, or nothing at all. -/
def SettingsSource.IsLayer : SettingsSource → Layer → Prop
  | .none, layer => layer = []
  | .file _ v, layer => v = .table (layer.map fun e => (.text e.1, e.2))

section

variable {env : Environment} {layer below : Layer} {key : SettingKey} {v : Value} {settings : Settings}

lemma checkElements_eq_ok {name : String} {n : Nat} {elements : List Value} {ss : List String}
    (h : checkElements name n elements = .ok ss) : elements = ss.map .text := by
  induction elements generalizing n ss with
  | nil =>
    cases h
    rfl
  | cons v rest ih =>
    rw [checkElements] at h
    split at h
    · rename_i s ss htext hrest
      cases h
      cases v <;> cases htext
      rw [List.map_cons, ← ih hrest]
    · cases h
    · cases h

lemma checkText_eq_ok {key : TextKey} {default s : String} (h : checkText layer key default = .ok s) :
    Value.text s = (layer.value? (.one key)).getD (.text default) := by
  unfold checkText at h
  split at h
  · rename_i hnone
    cases h
    rw [hnone, Option.getD_none]
  · rename_i hsome
    cases h
    rw [hsome, Option.getD_some]
  · cases h

lemma checkList_eq_ok {key : ListKey} {default ss : List String}
    (h : checkList layer key default = .ok ss) :
    Value.list (ss.map .text) = (layer.value? (.many key)).getD (.list (default.map .text)) := by
  unfold checkList at h
  split at h
  · rename_i hnone
    cases h
    rw [hnone, Option.getD_none]
  · rename_i elements hsome
    rw [hsome, Option.getD_some, checkElements_eq_ok h]
  · cases h

/-- **Each setting has the value of the layer, or its default.** -/
theorem checkSettings_eq_ok (h : checkSettings layer = .ok settings) (key : SettingKey) :
    settings.value key = (layer.value? key).getD (({} : Settings).value key) := by
  unfold checkSettings at h
  dsimp only at h
  split at h
  · rename_i hmarker hmetadata hparent halias htype hfallback hextensions hstyle hlint hunknown
    cases h
    cases key with
    | one key =>
      cases key with
      | markerFile => exact checkText_eq_ok hmarker
      | metadataKey => exact checkText_eq_ok hmetadata
      | parentKey => exact checkText_eq_ok hparent
      | aliasKey => exact checkText_eq_ok halias
      | defaultModuleType => exact checkText_eq_ok htype
      | styleExtension => exact checkText_eq_ok hstyle
    | many key =>
      cases key with
      | fallbackModules => exact checkList_eq_ok hfallback
      | scriptExtensions => exact checkList_eq_ok hextensions
      | lintCommand => exact checkList_eq_ok hlint
  · cases h

/-- A layer of an environment holds what the environment has for its keys. -/
lemma value?_environmentLayer {keys : List SettingKey} (h : environmentLayer env keys = .ok layer)
    (hkey : key ∈ keys) : env.value? key = .ok (layer.value? key) := by
  cases hv : layer.value? key with
  | some v => exact value?_of_environmentLayer h hv
  | none =>
    induction keys generalizing layer with
    | nil => cases hkey
    | cons first rest ih =>
      obtain ⟨value, hvalue, h⟩ := Except.bind_eq_ok.mp h
      obtain ⟨lower, hlower, rfl⟩ := Except.map_eq_ok.mp h
      obtain ⟨hlookup, hfind⟩ := Option.or_eq_none_iff.mp hv
      rcases List.mem_cons.mp hkey with rfl | hkey
      · cases value with
        | none => exact hvalue
        | some w => simp at hlookup
      · refine ih hlower hkey ?_
        rw [List.lookup_append, Option.or_eq_none_iff] at hlookup
        rw [List.find?_append, Option.map_eq_none_iff, Option.or_eq_none_iff] at hfind
        rw [Layer.value?, hlookup.2, hfind.2]
        rfl

/-- The names in a layer of an environment are those of settings. -/
lemma name_of_mem_environmentLayer {keys : List SettingKey} {e : String × Value}
    (h : environmentLayer env keys = .ok layer) (he : e ∈ layer) : lowerCase e.1 = e.1 := by
  obtain ⟨name, v⟩ := e
  obtain ⟨key, rfl, -⟩ := exists_of_mem_environmentLayer h he
  exact key.lowerCase_name

/-- Where all names are in lower case, each is looked for as it is written. -/
lemma lookup_of_lowerCase (h : ∀ e ∈ layer, lowerCase e.1 = e.1) (key : SettingKey) :
    layer.lookup key.name = (layer.find? fun e => lowerCase e.1 == key.name).map (·.2) := by
  induction layer with
  | nil => rfl
  | cons e rest ih =>
    rw [List.lookup_cons, List.find?_cons, h e List.mem_cons_self,
      ih fun e he => h e (List.mem_cons_of_mem _ he), BEq.comm]
    cases e.1 == key.name <;> rfl

/-- **What the upper layer has counts**, and below it what the lower layer has. -/
lemma value?_over (hbelow : ∀ e ∈ below, lowerCase e.1 = e.1) (key : SettingKey) :
    (layer.over below).value? key = (layer.value? key).or (below.value? key) := by
  let hidden : String × Value → Bool := fun e => layer.any fun f => lowerCase f.1 == e.1
  have hkept : ∀ e ∈ below.filter (!hidden ·), lowerCase e.1 = e.1 :=
    fun e he => hbelow e (List.mem_filter.mp he).1
  have hover : layer.over below = layer ++ below.filter (!hidden ·) := rfl
  unfold Layer.value?
  rw [hover, List.lookup_append, List.find?_append, lookup_of_lowerCase hkept, lookup_of_lowerCase hbelow]
  cases layer.lookup key.name with
  | some v => rfl
  | none =>
    cases hfind : layer.find? fun e => lowerCase e.1 == key.name with
    | some e =>
      -- the name is written in another case above, which hides it below
      have hnone : (below.filter (!hidden ·)).find? (fun f => lowerCase f.1 == key.name) = none := by
        refine List.find?_eq_none.mpr fun f hf hname => ?_
        obtain ⟨hmem, hshown⟩ := List.mem_filter.mp hf
        rw [hbelow f hmem, beq_iff_eq] at hname
        have hsome : lowerCase e.1 = f.1 := by simpa [hname] using List.find?_some hfind
        have hhidden : hidden f = true :=
          List.any_eq_true.mpr ⟨e, List.mem_of_find?_eq_some hfind, beq_iff_eq.mpr hsome⟩
        simp [hhidden] at hshown
      simp [hnone]
    | none =>
      have hall : (below.filter (!hidden ·)).find? (fun f => lowerCase f.1 == key.name) =
          below.find? fun f => lowerCase f.1 == key.name := by
        rw [List.find?_filter]
        refine List.find?_congr fun f hf => ?_
        rw [hbelow f hf]
        cases hname : f.1 == key.name with
        | false => simp
        | true =>
          have hhidden : hidden f = false := by
            refine List.any_eq_false.mpr fun g hg => ?_
            have hno := List.find?_eq_none.mp hfind g hg
            rwa [← beq_iff_eq.mp hname] at hno
          simp [hhidden]
      simp [hall]

lemma isLayer_of_layerOf {path : String} (h : layerOf v path = .ok layer) :
    (SettingsSource.file path v).IsLayer layer := by
  unfold layerOf at h
  split at h
  · rename_i fields
    split at h
    · rename_i hall
      cases h
      have hfields : fields = (fields.filterMap fun f => f.1.text?.map (·, f.2)).map
          fun e => (Value.text e.1, e.2) := by
        induction fields with
        | nil => rfl
        | cons f rest ih =>
          rw [List.all_cons, Bool.and_eq_true] at hall
          obtain ⟨key, value⟩ := f
          cases key with
          | text s =>
            have hcons : ((Value.text s, value) :: rest).filterMap
                (fun f : Value × Value => f.1.text?.map (·, f.2)) =
                (s, value) :: rest.filterMap fun f : Value × Value => f.1.text?.map (·, f.2) := rfl
            rw [hcons, List.map_cons, ← ih hall.2]
          | _ => cases hall.1
      exact congrArg Value.table hfields
    · cases h
  · cases h

/-- **Each setting is taken from the upper layer, or from the environment**, or has its default. -/
lemma settingsOf_eq_ok {path : Option String} (h : settingsOf env layer path = .ok settings)
    (key : SettingKey) : ∃ v, env.value? key = .ok v ∧
      settings.value key = ((layer.value? key).or v).getD (({} : Settings).value key) := by
  obtain ⟨below, hbelow, h⟩ := Except.bind_eq_ok.mp h
  split at h
  · rename_i checked hchecked
    cases h
    refine ⟨below.value? key, value?_environmentLayer hbelow key.mem_all, ?_⟩
    rw [checkSettings_eq_ok hchecked,
      value?_over (fun e he => name_of_mem_environmentLayer hbelow he)]
  · cases h

end

/-! ## Layers -/

/-- A directory with a settings file, and a project file that has no table for the settings. -/
def Disk.configured : Disk where
  entries :=
    [(["w"], .directory), (["w", "extendgen.yml"], .file (Text.encode "marker_file: module.json\n")),
     (["w", "pyproject.toml"], .file (Text.encode "[tool"))]
  here := ["w"]

lemma Disk.configured_linkFree : Disk.configured.LinkFree := by
  intro e he target
  simp only [Disk.configured, List.mem_cons, List.not_mem_nil, or_false] at he
  rcases he with rfl | rfl | rfl <;> simp

end ThemeOverride
