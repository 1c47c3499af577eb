import Mathlib.Data.List.Nodup
import ThemeOverride.Module.Location
import ThemeOverride.Proofs.Text.PathText

/-!
# The list of the files of a resource

The files of a resource are the script files of its directory that carry its name. They are handled
in an order that their names decide: first by the part that stands behind the name of the resource,
and then by the name as a whole. So the list does not depend on the order in which a system tells
what a directory holds.

## Main definitions

* `ThemeOverride.Disk.Distinct` — a disk that holds nothing twice at one place.
* `ThemeOverride.StatesPart` — the part that a file name states.
* `ThemeOverride.ComesBefore` — the order of the files.

## Main results

* `ThemeOverride.Disk.follow_of_perm` — the order of the entries of a disk does not matter to paths.
* `ThemeOverride.fileRank_eq` — files are ranked by the parts that they state.
* `ThemeOverride.fileList_exact` — what is in the list, and in which order.
-/

namespace ThemeOverride

/-! ## The order of entries -/

namespace Disk

/-- A disk that holds nothing twice at one place. -/
def Distinct (d : Disk) : Prop := (d.entries.map (·.1)).Nodup

instance (d : Disk) : Decidable d.Distinct := inferInstanceAs (Decidable (List.Nodup _))

variable {d d' : Disk} {directory place : Place} {name : String} {node : Node}

lemma Distinct.of_perm (hd : d.Distinct) (h : d'.entries.Perm d.entries) : d'.Distinct :=
  (h.map Prod.fst).nodup_iff.mpr hd

/-- On such a disk, an entry is what lies at its place. -/
lemma Distinct.lookup_eq_some_iff (hd : d.Distinct) :
    d.entries.lookup place = some node ↔ (place, node) ∈ d.entries := by
  rw [List.lookup_eq_some_iff]
  constructor
  · rintro ⟨before, after, heq, -⟩
    simp [heq]
  · intro hmem
    obtain ⟨before, after, heq⟩ := List.append_of_mem hmem
    refine ⟨before, after, heq, fun e he => ?_⟩
    rw [Distinct, heq, List.map_append, List.map_cons, List.nodup_append] at hd
    simpa using (hd.2.2 e.1 (List.mem_map_of_mem he) place List.mem_cons_self).symm

/-- What lies at a place does not depend on the order of the entries. -/
lemma Distinct.node?_of_perm (hd : d.Distinct) (h : d'.entries.Perm d.entries) (place : Place) :
    d'.node? place = d.node? place := by
  unfold node?
  split
  · rfl
  · refine Option.ext fun node => ?_
    rw [(hd.of_perm h).lookup_eq_some_iff, hd.lookup_eq_some_iff, h.mem_iff]

/-- Paths lead alike on disks that hold the same at every place. -/
lemma follow_eq_of_node?_eq (hnode : ∀ place, d'.node? place = d.node? place)
    (hhere : d'.here = d.here) (atEnd : Bool) (p : Path) : d'.follow atEnd p = d.follow atEnd p := by
  have hnames : ∀ enter place names,
      d'.followNames enter atEnd place names = d.followNames enter atEnd place names := by
    intro enter place names
    induction names generalizing place with
    | nil => rfl
    | cons name rest ih => simp only [followNames, hnode, ih]
  have hlinks : ∀ n, d'.followLinks atEnd n = d.followLinks atEnd n := by
    intro n
    induction n with
    | zero =>
      funext place names
      exact hnames _ place names
    | succ n ih =>
      funext place names
      rw [followLinks, followLinks, ih]
      exact hnames _ place names
  simp only [follow, start, hlinks, hhere]

/-- **The order of the entries does not matter** to where a path leads. -/
theorem follow_of_perm (hd : d.Distinct) (hhere : d'.here = d.here)
    (h : d'.entries.Perm d.entries) (atEnd : Bool) (p : Path) :
    d'.follow atEnd p = d.follow atEnd p :=
  follow_eq_of_node?_eq (hd.node?_of_perm h) hhere atEnd p

/-! ## The names in a directory -/

lemma nameIn?_eq_some_iff : nameIn? directory place = some name ↔ place = directory ++ [name] := by
  unfold nameIn?
  constructor
  · intro h
    split at h
    · rename_i hin
      rw [Bool.and_eq_true, beq_iff_eq, List.isPrefixOf_iff_prefix] at hin
      obtain ⟨hlength, rest, rfl⟩ := hin
      obtain ⟨last, rfl⟩ : ∃ last, rest = [last] := by
        rw [List.length_append] at hlength
        exact List.length_eq_one_iff.mp (by omega)
      rw [List.getLast?_concat] at h
      cases h
      rfl
    · cases h
  · rintro rfl
    have hin : directory.isPrefixOf (directory ++ [name]) = true :=
      List.isPrefixOf_iff_prefix.mpr (List.prefix_append _ _)
    simp [hin]

/-- A directory holds the names at which something lies. -/
lemma mem_namesIn_iff :
    name ∈ d.namesIn directory ↔ (d.node? (directory ++ [name])).isSome = true := by
  have hne : (directory ++ [name]).isEmpty = false := by simp
  rw [node?, hne, namesIn, List.mem_filterMap]
  simp only [nameIn?_eq_some_iff, Bool.false_eq_true, if_false]
  constructor
  · rintro ⟨⟨place, node⟩, hmem, rfl⟩
    rw [Option.isSome_iff_ne_none, ne_eq, List.lookup_eq_none_iff]
    exact fun hnone => by simpa using hnone _ hmem
  · intro hsome
    obtain ⟨node, hnode⟩ := Option.isSome_iff_exists.mp hsome
    obtain ⟨before, after, heq, -⟩ := List.lookup_eq_some_iff.mp hnode
    exact ⟨(directory ++ [name], node), by simp [heq], rfl⟩

lemma Distinct.nodup_namesIn (hd : d.Distinct) (directory : Place) : (d.namesIn directory).Nodup := by
  have hmap : d.namesIn directory = (d.entries.map (·.1)).filterMap (nameIn? directory) := by
    rw [List.filterMap_map]
    rfl
  rw [hmap]
  refine List.Nodup.filterMap (fun place other name h h' => ?_) hd
  rw [nameIn?_eq_some_iff.mp h, nameIn?_eq_some_iff.mp h']

lemma list_of_follow {p : Path} (h : d.follow true p = .ok (.node place .directory)) :
    d.list p = .ok (d.namesIn place) := by
  unfold list
  rw [h]

end Disk

/-! ## The parts of file names -/

/-- **A file name states a part** behind the name of its resource and a full stop: what stands up to
the next full stop, or up to the end. -/
def StatesPart (resourceName fileName part : String) : Prop :=
  '.' ∉ part.toList ∧ ∃ rest, fileName = resourceName ++ "." ++ part ++ rest ∧
    (rest = "" ∨ ∃ more, rest = "." ++ more)

section

variable {name fileName part : String}

/-- The names that begin with the name of a resource and a full stop are those that state a part. -/
lemma exists_statesPart_iff :
    (∃ part, StatesPart name fileName part) ↔ ∃ rest, fileName = name ++ "." ++ rest := by
  constructor
  · rintro ⟨part, -, rest, rfl, -⟩
    exact ⟨part ++ rest, by rw [String.append_assoc]⟩
  · rintro ⟨rest, rfl⟩
    have hsplit := List.takeWhile_append_dropWhile (p := (· != '.')) (l := rest.toList)
    have htext : rest = String.ofList (rest.toList.takeWhile (· != '.')) ++
        String.ofList (rest.toList.dropWhile (· != '.')) := by
      rw [← String.ofList_append, hsplit, String.ofList_toList]
    refine ⟨String.ofList (rest.toList.takeWhile (· != '.')), fun hmem => ?_,
      String.ofList (rest.toList.dropWhile (· != '.')), ?_, ?_⟩
    · rw [String.toList_ofList] at hmem
      simpa using List.all_eq_true.mp (List.all_takeWhile (p := (· != '.')) (l := rest.toList)) _ hmem
    · conv_lhs => rw [htext, ← String.append_assoc]
    · cases hdrop : rest.toList.dropWhile (· != '.') with
      | nil => exact .inl rfl
      | cons c more =>
        have hhead := List.head?_dropWhile_not (· != '.') rest.toList
        rw [hdrop] at hhead
        obtain rfl : c = '.' := by simpa using hhead
        exact .inr ⟨String.ofList more, @String.ofList_append ['.'] more⟩

/-- **Files are ranked by the parts that they state.** -/
theorem fileRank_eq (h : StatesPart name fileName part) :
    fileRank name fileName = leadingParts.idxOf part := by
  obtain ⟨hpart, rest, rfl, hrest⟩ := h
  have hdrop : ((name ++ "." ++ part ++ rest).drop (name.length + 1)).toString.toList =
      part.toList ++ rest.toList := by
    have htext : (name ++ "." ++ part ++ rest).toList =
        (name ++ ".").toList ++ (part.toList ++ rest.toList) := by
      rw [String.append_assoc, String.toList_append, String.toList_append (s := part)]
    rw [String.Slice.toString_eq, String.toList_copy_drop, htext]
    exact List.drop_left' (by rw [String.length_toList, String.length_append]; rfl)
  have hpieces : ∃ more, Text.splitAt '.' (part.toList ++ rest.toList) = part.toList :: more := by
    rcases hrest with rfl | ⟨more, rfl⟩
    · exact ⟨[], by simpa using Text.splitAt_of_notMem hpart⟩
    · rw [String.toList_append]
      exact ⟨_, Text.splitAt_append_cons hpart more.toList⟩
  obtain ⟨more, hpieces⟩ := hpieces
  unfold fileRank Text.pieces
  rw [hdrop, hpieces, List.map_cons, List.head?_cons, Option.getD_some, String.ofList_toList]

end

/-! ## The order of files -/

/-- **A file of a resource comes before another**: the part that it states is earlier among those that
are handled first, where all other parts are behind these; or the parts are of equal rank, and the
name is earlier by its characters. -/
def ComesBefore (resourceName a b : String) : Prop :=
  ∃ part other, StatesPart resourceName a part ∧ StatesPart resourceName b other ∧
    (leadingParts.idxOf part < leadingParts.idxOf other ∨
      leadingParts.idxOf part = leadingParts.idxOf other ∧ a < b)

section

variable {name a b c : String}

lemma precedes_iff : precedes name a b = true ↔
    fileRank name a < fileRank name b ∨ fileRank name a = fileRank name b ∧ a ≤ b := by
  simp [precedes]

lemma precedes_trans (a b c : String) (h : precedes name a b = true)
    (h' : precedes name b c = true) : precedes name a c = true := by
  rw [precedes_iff] at h h' ⊢
  rcases h with hab | ⟨hab, hle⟩
  · exact .inl (by omega)
  · rcases h' with hbc | ⟨hbc, hle'⟩
    · exact .inl (by omega)
    · exact .inr ⟨by omega, String.le_trans hle hle'⟩

lemma precedes_total (a b : String) : (precedes name a b || precedes name b a) = true := by
  rw [Bool.or_eq_true, precedes_iff, precedes_iff]
  rcases Nat.lt_trichotomy (fileRank name a) (fileRank name b) with h | h | h
  · exact .inl (.inl h)
  · exact (String.le_total a b).imp (fun hle => .inr ⟨h, hle⟩) fun hle => .inr ⟨h.symm, hle⟩
  · exact .inr (.inl h)

lemma precedes_antisymm (h : precedes name a b = true) (h' : precedes name b a = true) : a = b := by
  rw [precedes_iff] at h h'
  rcases h with hab | ⟨hab, hle⟩ <;> rcases h' with hba | ⟨hba, hle'⟩
  · omega
  · omega
  · omega
  · exact String.le_antisymm hle hle'

lemma comesBefore_of_precedes (ha : ∃ part, StatesPart name a part)
    (hb : ∃ part, StatesPart name b part) (h : precedes name a b = true) (hne : a ≠ b) :
    ComesBefore name a b := by
  obtain ⟨part, hpart⟩ := ha
  obtain ⟨other, hother⟩ := hb
  refine ⟨part, other, hpart, hother, ?_⟩
  rw [← fileRank_eq hpart, ← fileRank_eq hother]
  exact (precedes_iff.mp h).imp_right fun ⟨hrank, hle⟩ =>
    ⟨hrank, (Std.le_iff_lt_or_eq.mp hle).resolve_right hne⟩

end

/-! ## The list -/

section

variable {d : Disk} {settings : Settings} {type : ResourceType} {name : String} {source : Path}
  {place : Place}

lemma isSourceFile_iff {fileName : String} : isSourceFile d settings source name fileName = true ↔
    d.isFile (source.child fileName) = true ∧ (∃ part, StatesPart name fileName part) ∧
      Path.suffixOf fileName ∈ settings.scriptExtensions := by
  have hbegins : (name ++ ".").toList.isPrefixOf fileName.toList = true ↔
      ∃ rest, fileName = name ++ "." ++ rest := by
    rw [List.isPrefixOf_iff_prefix]
    constructor
    · rintro ⟨rest, hrest⟩
      exact ⟨String.ofList rest, String.toList_inj.mp (by simpa using hrest.symm)⟩
    · rintro ⟨rest, rfl⟩
      exact ⟨rest.toList, by simp⟩
  rw [isSourceFile, Bool.and_eq_true, Bool.and_eq_true, hbegins, exists_statesPart_iff, and_assoc,
    List.contains_iff_mem]

/-- The list of a directory is its source files in their order. -/
lemma fileList_of_follow (htype : type ≠ .query)
    (hsource : d.follow true source = .ok (.node place .directory)) :
    fileList d settings type name source =
      .ok (((d.namesIn place).filter (isSourceFile d settings source name)).mergeSort
        (precedes name)) := by
  unfold fileList
  rw [if_neg (by simpa using htype), Disk.list_of_follow hsource]

/-- **The list of the files of a resource**, for every directory, name and list of extensions. It holds
each file of the directory whose name begins with that of the resource and a full stop and ends with
one of the extensions, once, and nothing else. Those that state one of the leading parts come first,
in the order of these parts, and files of equal rank are in the order of their names. Another disk
that holds the same in another order has the same list.

**Proof sketch.** The order of two files is decided by their names, so it is total, and no two names
are equal in it. Hence the list is given by what is in it, and that does not depend on the order of
the entries. -/
theorem fileList_exact (settings : Settings) (name : String) (htype : type ≠ .query)
    (hd : d.Distinct) (hsource : d.follow true source = .ok (.node place .directory)) :
    ∃ files, fileList d settings type name source = .ok files ∧
      files.Nodup ∧
      (∀ fileName, fileName ∈ files ↔ (d.node? (place ++ [fileName])).isSome = true ∧
        d.isFile (source.child fileName) = true ∧
        (∃ rest, fileName = name ++ "." ++ rest) ∧
        Path.suffixOf fileName ∈ settings.scriptExtensions) ∧
      files.Pairwise (ComesBefore name) ∧
      ∀ d' : Disk, d'.here = d.here → d'.entries.Perm d.entries →
        fileList d' settings type name source = .ok files := by
  have hsorted : ∀ names : List String, (names.mergeSort (precedes name)).Pairwise
      (fun a b => precedes name a b = true) :=
    fun names => List.pairwise_mergeSort precedes_trans precedes_total names
  have hnodup : (((d.namesIn place).filter (isSourceFile d settings source name)).mergeSort
      (precedes name)).Nodup :=
    (List.mergeSort_perm _ _).nodup_iff.mpr ((hd.nodup_namesIn place).filter _)
  have hmem : ∀ fileName ∈ ((d.namesIn place).filter
      (isSourceFile d settings source name)).mergeSort (precedes name),
      ∃ part, StatesPart name fileName part := fun fileName hm =>
    (isSourceFile_iff.mp (List.mem_filter.mp (List.mem_mergeSort.mp hm)).2).2.1
  refine ⟨_, fileList_of_follow htype hsource, hnodup, fun fileName => ?_,
    ((hsorted _).and hnodup).imp_of_mem fun ha hb h =>
      comesBefore_of_precedes (hmem _ ha) (hmem _ hb) h.1 h.2, fun d' hhere hperm => ?_⟩
  · rw [List.mem_mergeSort, List.mem_filter, Disk.mem_namesIn_iff, isSourceFile_iff,
      exists_statesPart_iff]
  · have hfollow : ∀ p, d'.follow true p = d.follow true p :=
      Disk.follow_of_perm hd hhere hperm true
    have hfilter : isSourceFile d' settings source name = isSourceFile d settings source name := by
      funext fileName
      simp only [isSourceFile, Disk.isFile, Disk.nodeAt?, hfollow]
    have hnames : (d'.namesIn place).Perm (d.namesIn place) := hperm.filterMap _
    rw [fileList_of_follow htype (by rw [hfollow, hsource]), hfilter]
    have hlists := ((List.mergeSort_perm _ (precedes name)).trans
      (hnames.filter (isSourceFile d settings source name))).trans
        (List.mergeSort_perm _ (precedes name)).symm
    exact congrArg _ (hlists.eq_of_pairwise (fun _ _ _ _ => precedes_antisymm) (hsorted _)
      (hsorted _))

end

/-- The directory of a header: script files of all ranks, one of them through a link, and what is no
script file of it. -/
def Disk.headerFiles : Disk where
  entries :=
    [(["h"], .directory), (["h", "HeaderX.js"], .file []), (["h", "Header.component.js"], .file []),
     (["h", "Header.container.js"], .file []), (["h", "Header.config.js"], .file []),
     (["h", "Header.style.scss"], .file []), (["h", "Header.type.ts"], .file []),
     (["h", "Header.alpha.x.js"], .link (.ofString "Header.zeta.js")),
     (["h", "Header.d.ts"], .directory), (["h", "Header.zeta.js"], .file [])]

/-- The files of the header, in whatever order its directory holds them. -/
theorem fileList_exact_headerFiles :
    ResourceType.component ≠ .query ∧ Disk.headerFiles.Distinct ∧
    Disk.headerFiles.follow true (.ofString "/h") = .ok (.node ["h"] .directory) ∧
    ∀ d' : Disk, d'.here = [] → d'.entries.Perm Disk.headerFiles.entries →
      fileList d' {} .component "Header" (.ofString "/h") = .ok ["Header.component.js",
        "Header.container.js", "Header.config.js", "Header.type.ts", "Header.alpha.x.js",
        "Header.zeta.js"] := by
  have htype : ResourceType.component ≠ .query := by decide
  have hd : Disk.headerFiles.Distinct := by decide
  have hsource : Disk.headerFiles.follow true (.ofString "/h") = .ok (.node ["h"] .directory) := by
    decide
  refine ⟨htype, hd, hsource, fun d' hhere hperm => ?_⟩
  obtain ⟨files, hfiles, -, -, -, hother⟩ := fileList_exact {} "Header" htype hd hsource
  have hlist : fileList Disk.headerFiles {} .component "Header" (.ofString "/h") =
      .ok ["Header.component.js", "Header.container.js", "Header.config.js", "Header.type.ts",
        "Header.alpha.x.js", "Header.zeta.js"] := by
    have hnames : (Disk.headerFiles.namesIn ["h"]).filter
        (isSourceFile Disk.headerFiles {} (.ofString "/h") "Header") = ["Header.component.js",
          "Header.container.js", "Header.config.js", "Header.type.ts", "Header.alpha.x.js",
          "Header.zeta.js"] := by
      decide +kernel
    rw [fileList_of_follow htype hsource, hnames, List.mergeSort_of_pairwise (by decide +kernel)]
  rw [hother d' hhere hperm, ← hfiles, hlist]

end ThemeOverride
