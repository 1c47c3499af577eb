import ThemeOverride.Proofs.Disk.LastName
import ThemeOverride.Proofs.Disk.LinkFree
import ThemeOverride.Proofs.Run.Independence
import ThemeOverride.Proofs.Run.Tidying

/-!
# What the import path of an override denotes

An override imports its source file from a path that is made from the name of the module of the file,
the type and name of the resource, and the name of the file. The file itself lies below the root of
that module. The path denotes the file if the text says how the file is reached from the root.

## Main definitions

* `ThemeOverride.Job.Denotes` — an import path denotes the file at a place.
* `ThemeOverride.Task.IsPlain` — a resource name that spells the place of the resource.

## Main results

* `ThemeOverride.stripScriptExtension_join` — a path without the extension of its last name.
* `ThemeOverride.exists_of_nearest?` — the nearest root above a directory.
* `ThemeOverride.Prepared.denotes_iff` — the import path denotes the source file just if no other
  module begins between the module in which the resource is found and the resource.
* `ThemeOverride.not_denotes_nestedModule` — a module inside of a resource.
-/

namespace ThemeOverride

/-! ## Paths without an extension -/

section

variable {front body : List Char}

/-- An ending without a slash is that of what follows a slash. -/
lemma suffix_slash_iff {ending : List Char} (h : '/' ∉ ending) :
    ending <:+ front ++ '/' :: body ↔ ending <:+ body := by
  refine ⟨fun hs => ?_, fun hs => hs.trans ((List.suffix_cons _ _).trans (List.suffix_append _ _))⟩
  rcases List.suffix_or_suffix_of_suffix hs (List.suffix_append front _) with hs | hs
  · exact (List.suffix_cons_iff.mp hs).resolve_left fun he => h (he ▸ List.mem_cons_self)
  · exact absurd (hs.subset List.mem_cons_self) h

lemma dropEnding?_slash {ending : String} (h : '/' ∉ ending.toList) :
    Text.dropEnding? ending (front ++ '/' :: body) =
      (Text.dropEnding? ending body).map (front ++ '/' :: ·) := by
  unfold Text.dropEnding?
  by_cases hs : ending.toList <:+ body
  · have hlength : ending.length ≤ body.length := by
      rw [← String.length_toList]
      exact hs.length_le
    have htake : (front ++ '/' :: body).length - ending.length =
        front.length + (body.length - ending.length + 1) := by
      simp only [List.length_append, List.length_cons]
      omega
    rw [if_pos (by simpa using (suffix_slash_iff h).mpr hs), if_pos (by simpa using hs), htake]
    simp [List.take_append, List.take_of_length_le]
  · rw [if_neg (by simpa [suffix_slash_iff h] using hs), if_neg (by simpa using hs)]
    rfl

lemma dropNewline_concat (s : List Char) (c : Char) :
    Text.dropNewline (s ++ [c]) = if c = '\n' then (s, ['\n']) else (s ++ [c], []) := by
  unfold Text.dropNewline
  rw [List.reverse_concat]
  split
  · rename_i he
    obtain ⟨rfl, rfl⟩ := List.cons.inj he
    simp
  · rename_i hne
    rw [if_neg]
    rintro rfl
    exact hne _ rfl

lemma dropNewline_slash : Text.dropNewline (front ++ '/' :: body) =
    (front ++ '/' :: (Text.dropNewline body).1, (Text.dropNewline body).2) := by
  rcases List.eq_nil_or_concat' body with rfl | ⟨init, c, rfl⟩
  · rw [dropNewline_concat, if_neg (by decide)]
    rfl
  · rw [show front ++ '/' :: (init ++ [c]) = front ++ '/' :: init ++ [c] by simp,
      dropNewline_concat, dropNewline_concat]
    split <;> simp

/-- What is stripped from a name behind a slash is what is stripped from the whole text. -/
lemma stripScriptExtension_slash (directory name : String) :
    stripScriptExtension (directory ++ "/" ++ name) =
      directory ++ "/" ++ stripScriptExtension name := by
  have htext : (directory ++ "/" ++ name).toList = directory.toList ++ '/' :: name.toList := by simp
  have hendings : ∀ ending ∈ [".jsx", ".js", ".tsx", ".ts"], '/' ∉ ending.toList := by decide
  have hfound : [".jsx", ".js", ".tsx", ".ts"].findSome?
        (Text.dropEnding? · (directory.toList ++ '/' :: (Text.dropNewline name.toList).1)) =
      ([".jsx", ".js", ".tsx", ".ts"].findSome?
        (Text.dropEnding? · (Text.dropNewline name.toList).1)).map (directory.toList ++ '/' :: ·) := by
    generalize [".jsx", ".js", ".tsx", ".ts"] = endings at hendings
    induction endings with
    | nil => rfl
    | cons ending rest ih =>
      rw [List.findSome?_cons, List.findSome?_cons, dropEnding?_slash (hendings _ List.mem_cons_self)]
      cases Text.dropEnding? ending (Text.dropNewline name.toList).1 with
      | none => exact ih fun e he => hendings e (List.mem_cons_of_mem _ he)
      | some stem => rfl
  unfold stripScriptExtension replaceEnding
  rw [htext, dropNewline_slash]
  dsimp only
  rw [hfound]
  cases [".jsx", ".js", ".tsx", ".ts"].findSome?
      (Text.dropEnding? · (Text.dropNewline name.toList).1) with
  | none => rfl
  | some stem =>
    apply String.ext
    simp

lemma join_cons_append (first : String) (names : List String) (last : String) :
    Text.join "/" (first :: (names ++ [last])) = first ++ "/" ++ Text.join "/" (names ++ [last]) := by
  cases names <;> rfl

lemma join_concat {names : List String} (h : names ≠ []) (last : String) :
    Text.join "/" (names ++ [last]) = Text.join "/" names ++ "/" ++ last := by
  induction names with
  | nil => exact absurd rfl h
  | cons first rest ih =>
    rcases eq_or_ne rest [] with rfl | hne
    · rfl
    · obtain ⟨second, more, rfl⟩ := List.exists_cons_of_ne_nil hne
      rw [List.cons_append, join_cons_append, ih hne]
      change _ = first ++ "/" ++ Text.join "/" (second :: more) ++ "/" ++ last
      simp only [String.append_assoc]

/-- Texts without slashes that are joined alike are as many. -/
lemma length_eq_of_join_eq {xs ys : List String} (hx : xs ≠ []) (hy : ys ≠ [])
    (hxs : ∀ s ∈ xs, '/' ∉ s.toList) (hys : ∀ s ∈ ys, '/' ∉ s.toList)
    (h : Text.join "/" xs = Text.join "/" ys) : xs.length = ys.length := by
  have hpieces := congrArg (fun s : String => (Text.splitAt '/' s.toList).length) h
  beta_reduce at hpieces
  rwa [Text.splitAt_join hx hxs, Text.splitAt_join hy hys, List.length_map, List.length_map]
    at hpieces

/-- **A path loses its extension with its last name.** -/
theorem stripScriptExtension_join (names : List String) (name : String) :
    stripScriptExtension (Text.join "/" (names ++ [name])) =
      Text.join "/" (names ++ [stripScriptExtension name]) := by
  induction names with
  | nil => rfl
  | cons first rest ih =>
    rw [List.cons_append, List.cons_append, join_cons_append, join_cons_append,
      stripScriptExtension_slash, ih]

/-- A name without its extension has no other characters. -/
lemma mem_of_mem_stripScriptExtension {name : String} {c : Char}
    (h : c ∈ (stripScriptExtension name).toList) : c ∈ name.toList := by
  have hparts := dropNewline_append name.toList
  unfold stripScriptExtension replaceEnding at h
  dsimp only at h
  rw [← hparts]
  split at h
  · rwa [hparts]
  · rename_i stem hstem
    obtain ⟨ending, -, hending⟩ := List.exists_of_findSome?_eq_some hstem
    unfold Text.dropEnding? at hending
    split at hending
    · cases hending
      simp only [String.toList_ofList, List.mem_append, String.toList_empty, List.append_nil] at h
      rcases h with h | h
      · exact List.mem_append_left _ (List.mem_of_mem_take h)
      · exact List.mem_append_right _ h
    · cases hending

end

/-! ## The nearest root -/

/-- **The nearest root above a directory** lies between a root and the directory, and nearer to the
directory than any other. -/
theorem exists_of_nearest? {base names : List String} {test : Path → Bool} {root : Path}
    (h : nearest? ⟨"/", base ++ names⟩ test = some root) (hbase : test ⟨"/", base⟩ = true) :
    ∃ inner, inner <+: names ∧ root = ⟨"/", base ++ inner⟩ ∧ test ⟨"/", base ++ inner⟩ = true ∧
      ∀ longer, longer <+: names → inner <+: longer → longer ≠ inner →
        test ⟨"/", base ++ longer⟩ = false := by
  induction names using List.reverseRecOn with
  | nil =>
    rw [List.append_nil, nearest?, List.find?_cons_of_pos hbase] at h
    refine ⟨[], List.nil_prefix, by rw [← Option.some.inj h, List.append_nil],
      by rwa [List.append_nil], fun longer hlonger _ hne => ?_⟩
    exact absurd (List.prefix_nil.mp hlonger) hne
  | append_singleton names name ih =>
    cases htest : test ⟨"/", base ++ (names ++ [name])⟩ with
    | true =>
      rw [nearest?, List.find?_cons_of_pos htest] at h
      refine ⟨names ++ [name], List.prefix_refl _, (Option.some.inj h).symm, htest, ?_⟩
      intro longer hlonger hinner hne
      exact absurd (hlonger.eq_of_length_le hinner.length_le) hne
    | false =>
      have hparent : Path.parent ⟨"/", base ++ (names ++ [name])⟩ = ⟨"/", base ++ names⟩ := by
        rw [Path.parent, ← List.append_assoc, List.dropLast_concat]
      rw [nearest?, List.find?_cons_of_neg (by simp [htest]), Path.ancestors_of_ne_nil (by simp),
        hparent] at h
      obtain ⟨inner, hinner, hroot, hat, hnone⟩ := ih h
      refine ⟨inner, hinner.trans (List.prefix_append _ _), hroot, hat, fun longer hlonger hl hne => ?_⟩
      rcases List.prefix_concat_iff.mp hlonger with rfl | hlonger
      · exact htest
      · exact hnone longer hlonger hl hne

namespace Disk

/-- On a disk without links, names lead to the place that they spell. -/
lemma eq_of_followNames {d : Disk} (hl : d.LinkFree)
    {enter : Place → List String → Except DiskCause Found} {atEnd : Bool} {names : List String}
    {place found : Place} {node : Node} (hup : ".." ∉ names)
    (h : d.followNames enter atEnd place names = .ok (.node found node)) : found = place ++ names := by
  induction names generalizing place with
  | nil =>
    cases h
    rw [List.append_nil]
  | cons name rest ih =>
    have hname : ¬ (name == "..") = true := by simpa using fun he => hup (by simp [he])
    have hrest : ".." ∉ rest := fun hr => hup (List.mem_cons_of_mem _ hr)
    rw [followNames, if_neg hname] at h
    dsimp only at h
    split at h
    · split at h <;> cases h
    · rw [ih hrest h, List.append_assoc, List.singleton_append]
    · split at h
      · rename_i he
        cases h
        rw [List.isEmpty_iff.mp he]
      · cases h
    · rename_i target hn
      exact absurd hn (hl.node?_ne_link _ target)

/-- On a disk without links, an absolute path that does not lead up leads to the place that its names
spell. -/
lemma LinkFree.eq_of_follow {d : Disk} (hl : d.LinkFree) {names : List String} {place : Place}
    {node : Node} (hup : ".." ∉ names) (h : d.follow true ⟨"/", names⟩ = .ok (.node place node)) :
    place = names := by
  unfold follow at h
  rw [followLinks_eq, start_of_isAbsolute rfl] at h
  exact eq_of_followNames hl hup h

end Disk

/-! ## Where the resource lies -/

/-- A resource name that spells the place of the resource below its type: it is relative and does not
lead up, and for a query it is a single name, also with the extensions of scripts. -/
structure Task.IsPlain (task : Task) (settings : Settings) : Prop where
  relative : (Path.ofString task.name).isAbsolute = false
  noUp : ".." ∉ (Path.ofString task.name).names
  single : task.type = .query →
    '/' ∉ task.name.toList ∧ ∀ e ∈ settings.scriptExtensions, '/' ∉ e.toList

/-- The names of the directory of a resource, relative to its module. -/
def Task.directoryNames (task : Task) : List String := (task.type.directory task.name).names

/-- The type of a resource is no name that leads up. -/
lemma ResourceType.name_ne_up (type : ResourceType) : type.name ≠ ".." := by
  cases type <;> decide

lemma ResourceType.isName_name (type : ResourceType) : Path.IsName type.name := by
  unfold Path.IsName
  cases type <;> decide

section

variable {settings : Settings} {task : Task} {target : Module} {d : Disk} {job : Job}
  {files : List String} {fileName : String}

/-- A resource lies below the directory of its type. -/
lemma Task.IsPlain.exists_directory (h : task.IsPlain settings) :
    ∃ more, ".." ∉ more ∧ (∀ n ∈ more, Path.IsName n) ∧
      task.type.directory task.name = ⟨"", ["src", task.type.name] ++ more⟩ := by
  have hchild : ∀ type : ResourceType, (Path.mk "" ["src", type.name]).child task.name =
      ⟨"", ["src", type.name] ++ (Path.ofString task.name).names⟩ := fun type => by
    rw [Path.child, Path.join, if_neg (by simp [h.relative])]
  cases task.type with
  | query => exact ⟨[], by simp, by simp, rfl⟩
  | component | route | store =>
    exact ⟨_, h.noUp, (Path.proper_ofString task.name).isName, hchild _⟩

/-- What is found lies in a module, which is the one that is given or a candidate. -/
lemma exists_moduleRoot_of_locate {resource : Path}
    (h : (locate d settings task.type task.name target.root task.source).2 = .ok resource) :
    ∃ root : Path, root.isAbsolute = true ∧ isModuleRoot d settings.markerFile root = true ∧
      resourceIn? d settings root task.type task.name = some resource := by
  unfold locate at h
  cases hsource : task.source with
  | none =>
    rw [hsource] at h
    obtain ⟨m, hm⟩ : ∃ m, moduleAt d settings target.root = .ok m := by
      cases hm : moduleAt d settings target.root with
      | ok m => exact ⟨m, rfl⟩
      | error f =>
        have hcandidates : candidates d settings target.root = .failed f := by
          simp only [candidates, hm]
        rw [hcandidates] at h
        cases h
    obtain ⟨before, winner, after, hroots, -, hwinner⟩ := searchTrail_ok h
    obtain ⟨habsolute, hmarker⟩ := isModuleRoot_of_mem_candidates hm
      (List.mem_cons_of_mem _ (by rw [hroots]; simp : winner ∈ _))
    exact ⟨winner, habsolute, hmarker, hwinner⟩
  | some p =>
    rw [hsource] at h
    dsimp only at h
    cases hroot : moduleRoot d settings.markerFile p with
    | error f => rw [hroot] at h; cases h
    | ok root =>
      rw [hroot] at h
      obtain ⟨before, winner, after, hroots, -, hwinner⟩ := searchTrail_ok h
      obtain rfl : winner = root := by
        have hmem : winner ∈ (Trail.root root .done).roots := by rw [hroots]; simp
        simpa [Trail.roots] using hmem
      obtain ⟨habsolute, hmarker⟩ := isModuleRoot_of_moduleRoot hroot
      exact ⟨winner, habsolute, hmarker, hwinner⟩

/-- The source file has a name that paths spell. -/
lemma Prepared.isName_of_mem (h : Prepared settings task target d (some (job, files)))
    (htype : task.type ≠ .query) (hs : d.Sound) (hf : fileName ∈ files) :
    Path.IsName fileName ∧ fileName ≠ ".." := by
  cases h with
  | found _ _ _ hfiles _ =>
    unfold fileList at hfiles
    rw [if_neg (by simpa using htype)] at hfiles
    split at hfiles
    · cases hfiles
    · rename_i names hlist
      cases hfiles
      exact hs.isName_of_list hlist fileName (List.mem_filter.mp (List.mem_mergeSort.mp hf)).1

/-- The source file of a query is its resource. -/
lemma Prepared.eq_name_of_mem (h : Prepared settings task target d (some (job, files)))
    (htype : task.type = .query) (hf : fileName ∈ files) : fileName = job.resource.name := by
  cases h with
  | found _ _ _ hfiles _ =>
    rw [fileList, htype] at hfiles
    obtain rfl := Except.ok.inj hfiles
    exact List.mem_singleton.mp hf

/-- **The way to a source file**: from the module in which the resource is found through the directory
of the resource. The directory is also what its module is sought above. -/
structure Job.Way (job : Job) (d : Disk) (settings : Settings) (root : Path) (names : List String)
    (fileName : String) : Prop where
  sourcePath_eq : job.sourcePath fileName = ⟨root.root, root.names ++ (names ++ [fileName])⟩
  isFile : d.isFile (job.sourcePath fileName) = true
  isName : Path.IsName fileName
  noUp : fileName ≠ ".."
  resource_eq : job.resource = ⟨root.root, root.names ++ names⟩ ∧ d.isDirectory job.resource = true ∨
    job.resource = job.sourcePath fileName

/-- The way to the files of a resource with a plain name. -/
lemma Prepared.way (h : Prepared settings task target d (some (job, files))) (hs : d.Sound)
    (hname : task.IsPlain settings) (hf : fileName ∈ files) {root : Path}
    (hroot : resourceIn? d settings root task.type task.name = some job.resource) :
    job.Way d settings root task.directoryNames fileName := by
  obtain ⟨more, -, -, hdirectory⟩ := hname.exists_directory
  have hjoin : root.join (task.type.directory task.name) =
      ⟨root.root, root.names ++ task.directoryNames⟩ := by
    rw [Task.directoryNames, hdirectory]
    rfl
  obtain ⟨htask, -⟩ := h.task_eq
  unfold resourceIn? at hroot
  dsimp only at hroot
  rw [hjoin] at hroot
  split at hroot
  · rename_i hquery
    have hquery : task.type = .query := by simpa using hquery
    obtain ⟨extension, hextension, hresource⟩ := List.mem_map.mp (List.mem_of_find?_eq_some hroot)
    obtain ⟨hslash, hextensions⟩ := hname.single hquery
    have hlast : Path.IsName (task.name ++ ".query" ++ extension) := by
      refine ⟨fun he => ?_, fun he => ?_, ?_⟩
      · have hmem : 'q' ∈ (task.name ++ ".query" ++ extension).toList := by simp
        rw [he] at hmem
        simp at hmem
      · have hmem : 'q' ∈ (task.name ++ ".query" ++ extension).toList := by simp
        rw [he] at hmem
        simp at hmem
      · simpa [hslash] using hextensions extension hextension
    rw [Path.child_of_isName hlast] at hresource
    have hfile : fileName = task.name ++ ".query" ++ extension := by
      rw [h.eq_name_of_mem hquery hf, ← hresource]
      simp [Path.name]
    have hsource : job.sourcePath fileName = job.resource := by
      rw [Job.sourcePath, htask, hquery]
      rfl
    have hisFile := List.find?_some hroot
    refine ⟨?_, by rwa [hsource], hfile ▸ hlast, ?_, .inr hsource.symm⟩
    · rw [hsource, ← hresource, hfile, List.append_assoc]
    · obtain ⟨last, hl, hup⟩ := Disk.exists_getLast?_of_isFile hisFile
      rw [← hresource, List.getLast?_concat] at hl
      rw [hfile, Option.some.inj hl]
      exact hup
  · rename_i hquery
    have hquery : task.type ≠ .query := by simpa using hquery
    obtain ⟨hfileName, hup⟩ := h.isName_of_mem hquery hs hf
    split at hroot
    · rename_i hisDirectory
      have hresource := Option.some.inj hroot
      refine ⟨?_, (h.mem_files hquery hs hf).1, hfileName, hup, .inl ⟨hresource.symm, ?_⟩⟩
      · rw [Job.sourcePath, htask, if_neg (by simpa using hquery), ← hresource,
          Path.child_of_isName hfileName, List.append_assoc]
      · rwa [← hresource]
    · cases hroot

/-- An open place that is a module's root by one of its paths is so by itself. -/
lemma isModuleRoot_of_resolve? {root : Path} {within : Place} {marker : String}
    (hm : IsRelativeMarker marker) (habsolute : root.isAbsolute = true)
    (hmarker : isModuleRoot d marker root = true) (hopen : d.IsOpen within)
    (hresolve : d.resolve? root = some ⟨"/", within⟩) :
    isModuleRoot d marker ⟨"/", within⟩ = true := by
  obtain ⟨place, content, hfollow⟩ := isModuleRoot_iff.mp hmarker
  rw [child_eq hm] at hfollow
  rcases eq_or_ne (Path.ofString marker).names [] with hnone | hne
  · -- the path would lead to a file
    rw [hnone, List.append_nil] at hfollow
    obtain ⟨hplace, hend⟩ := Disk.resolve?_of_follow (Disk.isOpen_start habsolute) hfollow
    rw [hresolve] at hplace
    cases hplace
    have hdirectory := hopen.directory _ (List.prefix_refl _)
    cases hend with
    | file _ _ hfile => rw [hdirectory] at hfile; cases hfile
  · obtain ⟨other, -, hother, hbelow⟩ :=
      Disk.exists_open_of_follow (Disk.isOpen_start habsolute) hne hfollow
    rw [hresolve] at hother
    cases hother
    rw [isModuleRoot_iff, child_eq hm]
    exact ⟨place, content, hbelow⟩

/-- On a disk without links, the way to a source file spells its place below that of the module in
which the resource is found, and the module of the file is the nearest one to the directory. -/
lemma Job.Way.exists_place {root : Path} {names : List String}
    (h : job.Way d settings root names fileName) (hl : d.LinkFree)
    (hm : IsRelativeMarker settings.markerFile) (habsolute : root.isAbsolute = true)
    (hmarker : isModuleRoot d settings.markerFile root = true) (hne : names ≠ [])
    (hup : ".." ∉ names) {source : Module} (hsource : moduleAt d settings job.resource = .ok source) :
    ∃ within content, resolvePath d root = .ok ⟨"/", within⟩ ∧
      d.follow true (job.sourcePath fileName) =
        .ok (.node (within ++ (names ++ [fileName])) (.file content)) ∧
      isModuleRoot d settings.markerFile ⟨"/", within⟩ = true ∧
      nearest? ⟨"/", within ++ names⟩ (isModuleRoot d settings.markerFile) = some source.root := by
  have hstart : ∀ names, d.IsOpen (d.start ⟨root.root, names⟩) := fun _ => Disk.isOpen_start habsolute
  obtain ⟨place, content, hfollow⟩ :
      ∃ place content, d.follow true (job.sourcePath fileName) = .ok (.node place (.file content)) := by
    obtain ⟨content, hread⟩ := Disk.exists_read_of_isFile h.isFile
    unfold Disk.read at hread
    split at hread
    · cases hread
    · rename_i place held hfollow
      exact ⟨place, held, hfollow⟩
    · cases hread
    · cases hread
  have hway := hfollow
  rw [h.sourcePath_eq] at hway
  obtain ⟨within, hopen, hresolve, hbelow⟩ := Disk.exists_open_of_follow (hstart _) (by simp) hway
  have hupWithin : ∀ more, ".." ∉ more → ".." ∉ within ++ more := fun more hmore hmem =>
    (List.mem_append.mp hmem).elim hopen.noUp hmore
  obtain rfl : place = within ++ (names ++ [fileName]) :=
    hl.eq_of_follow (hupWithin _ (by simpa using ⟨hup, h.noUp.symm⟩)) hbelow
  refine ⟨within, content, resolvePath_eq_ok_iff.mpr hresolve, hfollow,
    isModuleRoot_of_resolve? hm habsolute hmarker hopen hresolve, ?_⟩
  obtain ⟨start, hresource, -, hnearest⟩ := moduleRoot_eq_ok (moduleRoot_of_moduleAt hsource)
  rw [resolvePath_eq_ok_iff] at hresource
  rcases h.resource_eq with ⟨hpath, hdirectory⟩ | hpath
  · obtain ⟨place, hthere⟩ := Disk.isDirectory_iff.mp hdirectory
    rw [hpath] at hthere hresource
    obtain ⟨other, -, hother, hbelow'⟩ := Disk.exists_open_of_follow (hstart _) hne hthere
    rw [hresolve] at hother
    cases hother
    obtain rfl := hl.eq_of_follow (hupWithin _ hup) hbelow'
    rw [(Disk.resolve?_of_follow (hstart _) hthere).1] at hresource
    cases hresource
    rwa [if_pos (Disk.isDirectory_iff.mpr ⟨_, hbelow'⟩)] at hnearest
  · rw [hpath, h.sourcePath_eq, (Disk.resolve?_of_follow (hstart _) hway).1] at hresource
    cases hresource
    have hfile : d.isDirectory ⟨"/", within ++ (names ++ [fileName])⟩ = false := by
      simp [Disk.isDirectory, Disk.nodeAt?, hbelow]
    rw [hfile] at hnearest
    rwa [if_neg (by simp), Path.parent, ← List.append_assoc, List.dropLast_concat] at hnearest

end

/-! ## What an import path denotes -/

namespace Job

section

variable (job : Job)

/-- What the module of the source files is imported as: its alias with the type of the resource, or
its name. -/
def importedAs : String :=
  match job.sourceModule.aliasName?.filter (· != "") with
  | some aliasName => aliasName ++ job.task.type.aliasSuffix
  | none => job.sourceModule.name.shown

/-- Where an import path begins below the root of the module: with an alias, in the directory for
resources of the type. -/
def importBase : List String :=
  match job.sourceModule.aliasName?.filter (· != "") with
  | some _ => ["src", job.task.type.name]
  | none => []

/-- **An import path denotes the file at a place**: it is what the module is imported as, and then the
path of the file from where import paths begin, without the extension. -/
def Denotes (importPath : String) (place : Place) : Prop :=
  ∃ rel, place = job.sourceModule.root.names ++ (job.importBase ++ rel) ∧
    importPath = job.importedAs ++ "/" ++ stripScriptExtension (Text.join "/" rel)

end

section

variable {job : Job} {fileName : String}

/-- The import path is written from the names of the directory. -/
lemma exists_sourcePath_eq {more : List String}
    (h : job.task.type.directory job.task.name = ⟨"", ["src", job.task.type.name] ++ more⟩)
    (fileName : String) (source : SourceReading) (chosen : List ExportRecord)
    (style : Option StyleOption) :
    ∃ tail, ["src", job.task.type.name] ++ more = job.importBase ++ tail ∧
      (job.plan fileName source chosen style).sourcePath =
        job.importedAs ++ "/" ++ Text.join "/" (tail ++ [stripScriptExtension fileName]) := by
  unfold importBase importedAs plan sourceImportPath moduleImportDirectory
  dsimp only
  rw [h]
  cases job.sourceModule.aliasName?.filter (· != "") with
  | some aliasName => exact ⟨more, rfl, join_cons_append _ more _⟩
  | none =>
    refine ⟨["src", job.task.type.name] ++ more, rfl, ?_⟩
    rw [join_concat (by simp)]
    simp [Path.toString, String.append_assoc]

/-- The path of a file from where import paths begin has a name, unless the module itself begins
behind that. -/
lemma importBase_append_ne {inner tail more : List String}
    (htail : ["src", job.task.type.name] ++ more = job.importBase ++ tail)
    (hnil : tail = []) : job.importBase ++ (tail ++ [fileName]) ≠ inner ++ (job.importBase ++ []) := by
  subst hnil
  unfold importBase at htail ⊢
  intro h
  cases hmatch : job.sourceModule.aliasName?.filter (· != "") with
  | none =>
    rw [hmatch] at htail
    cases htail
  | some aliasName =>
    rw [hmatch] at h
    have hsrc : job.task.type.name ≠ "src" := by
      cases job.task.type <;> decide
    obtain ⟨first, rfl⟩ : ∃ first, inner = [first] := by
      have hlength := congrArg List.length h
      exact List.length_eq_one_iff.mp (by simpa using hlength.symm)
    simp only [List.cons_append, List.nil_append, List.cons.injEq] at h
    exact hsrc h.2.1

/-- **The import path denotes a file just if its module begins where the path is written from.** Between
the two lie the names `inner`. -/
theorem denotes_iff_eq_nil (source : SourceReading) (chosen : List ExportRecord)
    (style : Option StyleOption) {within inner more : List String}
    (hdirectory : job.task.type.directory job.task.name = ⟨"", ["src", job.task.type.name] ++ more⟩)
    (hmore : ∀ n ∈ more, Path.IsName n) (hfile : Path.IsName fileName)
    (hroot : job.sourceModule.root.names = within ++ inner) :
    job.Denotes (job.plan fileName source chosen style).sourcePath
        (within ++ (["src", job.task.type.name] ++ more ++ [fileName])) ↔ inner = [] := by
  obtain ⟨tail, htail, hpath⟩ := exists_sourcePath_eq hdirectory fileName source chosen style
  have hslash : ∀ n ∈ ["src", job.task.type.name] ++ more, '/' ∉ n.toList := by
    intro n hn
    rcases List.mem_append.mp hn with hn | hn
    · simp only [List.mem_cons, List.not_mem_nil, or_false] at hn
      rcases hn with rfl | rfl
      · decide
      · exact job.task.type.isName_name.2.2
    · exact (hmore n hn).2.2
  have hstem : '/' ∉ (stripScriptExtension fileName).toList := fun h =>
    hfile.2.2 (mem_of_mem_stripScriptExtension h)
  have hconcat : ∀ names, names ⊆ ["src", job.task.type.name] ++ more →
      ∀ n ∈ names ++ [stripScriptExtension fileName], '/' ∉ n.toList := by
    intro names hsub n hn
    rcases List.mem_append.mp hn with hn | hn
    · exact hslash n (hsub hn)
    · rwa [List.mem_singleton.mp hn]
  have htailSlash := hconcat tail (htail ▸ List.subset_append_right _ _)
  rw [hpath, Denotes, hroot, htail]
  constructor
  · rintro ⟨rel, hplace, htext⟩
    have htext : Text.join "/" (tail ++ [stripScriptExtension fileName]) =
        stripScriptExtension (Text.join "/" rel) := by simpa [String.append_assoc] using htext
    have hnames : job.importBase ++ (tail ++ [fileName]) = inner ++ (job.importBase ++ rel) := by
      simpa using hplace
    rcases List.eq_nil_or_concat' rel with rfl | ⟨front, last, rfl⟩
    · -- the text would be empty
      have hempty : stripScriptExtension (Text.join "/" []) = Text.join "/" [""] := rfl
      rw [hempty] at htext
      have hlength := length_eq_of_join_eq (by simp) (by simp) htailSlash (by simp) htext
      exact absurd hnames (importBase_append_ne htail (by simpa using hlength))
    · simp only [← List.append_assoc] at hnames
      obtain ⟨hfront, hlast⟩ := List.append_inj' hnames rfl
      rw [stripScriptExtension_join, ← List.singleton_inj.mp hlast] at htext
      have hfrontSlash := hconcat front (by
        rw [htail, hfront]
        exact List.subset_append_right _ _)
      have hlength := length_eq_of_join_eq (by simp) (by simp) htailSlash hfrontSlash htext
      have htotal := congrArg List.length hfront
      simp only [List.length_append, List.length_singleton] at hlength htotal
      exact List.eq_nil_of_length_eq_zero (by omega)
  · rintro rfl
    refine ⟨tail ++ [fileName], by simp, ?_⟩
    rw [stripScriptExtension_join]

end

end Job

/-- **When the import path denotes the source file.** On a disk without links, a source file lies below
the module in which its resource is found, where the names of the directory say. The import path of
its override denotes it just if no directory on the way from that module to the resource is the root
of another module.

**Proof sketch.** The import path is written from the directory names and from the module that the
resource belongs to. That is the nearest one at or above the resource (`exists_of_nearest?`), and the
text of the import path is too long by the names on the way to it (`Job.denotes_iff_eq_nil`). -/
theorem Prepared.denotes_iff {settings : Settings} {task : Task} {target : Module} {d : Disk}
    {job : Job} {files : List String} {fileName : String}
    (h : Prepared settings task target d (some (job, files))) (hl : d.LinkFree) (hs : d.Sound)
    (hm : IsRelativeMarker settings.markerFile) (hname : task.IsPlain settings)
    (hf : fileName ∈ files) :
    ∃ (root : Path) (within : Place) (content : List UInt8),
      resourceIn? d settings root task.type task.name = some job.resource ∧
      isModuleRoot d settings.markerFile root = true ∧ resolvePath d root = .ok ⟨"/", within⟩ ∧
      d.follow true (job.sourcePath fileName) =
        .ok (.node (within ++ (task.directoryNames ++ [fileName])) (.file content)) ∧
      ∀ source chosen style,
        job.Denotes (job.plan fileName source chosen style).sourcePath
            (within ++ (task.directoryNames ++ [fileName])) ↔
          ∀ inner, inner ≠ [] → inner <+: task.directoryNames →
            isModuleRoot d settings.markerFile ⟨"/", within ++ inner⟩ = false := by
  obtain ⟨htask, -⟩ := h.task_eq
  obtain ⟨more, hmore, hisName, hdirectory⟩ := hname.exists_directory
  have hnames : task.directoryNames = ["src", task.type.name] ++ more := by
    rw [Task.directoryNames, hdirectory]
  have hup : ".." ∉ task.directoryNames := by
    rw [hnames]
    simpa using ⟨task.type.name_ne_up.symm, hmore⟩
  obtain ⟨hlocate, hsource⟩ : (locate d settings task.type task.name target.root task.source).2 =
      .ok job.resource ∧ moduleAt d settings job.resource = .ok job.sourceModule := by
    cases h with
    | found hlocate hsource => exact ⟨hlocate, hsource⟩
  obtain ⟨root, habsolute, hmarker, hroot⟩ := exists_moduleRoot_of_locate hlocate
  have hway := h.way hs hname hf hroot
  obtain ⟨within, content, hresolve, hfollow, hat, hnearest⟩ :=
    hway.exists_place hl hm habsolute hmarker (by simp [hnames]) hup hsource
  obtain ⟨inner, hinner, hsourceRoot, hinnerAt, hnone⟩ := exists_of_nearest? hnearest hat
  refine ⟨root, within, content, hroot, hmarker, hresolve, hfollow, fun source chosen style => ?_⟩
  have hiff := Job.denotes_iff_eq_nil source chosen style (by rw [htask]; exact hdirectory) hisName
     hway.isName (congrArg Path.names hsourceRoot)
  rw [htask, ← hnames] at hiff
  rw [hiff]
  constructor
  · rintro rfl longer hne hlonger
    exact hnone longer hlonger List.nil_prefix hne
  · intro hfree
    by_contra hne
    rw [hfree inner hne hinner] at hinnerAt
    cases hinnerAt

/-- The import path of the second file of the store denotes the file. -/
theorem denotes_iff_twoFiles :
    Disk.twoFiles.follow true (Job.store.sourcePath "X.js") =
      .ok (.node ["b", "src", "store", "X", "X.js"] (.file (Text.encode "export const b = 1;"))) ∧
    ∀ source chosen style, Job.store.Denotes
      (Job.store.plan "X.js" source chosen style).sourcePath ["b", "src", "store", "X", "X.js"] := by
  have hfollow : Disk.twoFiles.follow true (Job.store.sourcePath "X.js") =
      .ok (.node ["b", "src", "store", "X", "X.js"] (.file (Text.encode "export const b = 1;"))) := by
    decide
  have hnames : Task.store.directoryNames = ["src", "store", "X"] := by decide
  have hplain : Task.store.IsPlain {} := ⟨by decide, by decide, nofun⟩
  have hfree : ∀ inner ∈ ["src", "store", "X"].inits, inner ≠ [] →
      isModuleRoot Disk.twoFiles "package.json" ⟨"/", ["b"] ++ inner⟩ = false := by decide
  obtain ⟨root, within, content, -, -, -, hthere, hiff⟩ := Prepared.denotes_iff
    (Task.prepared_store List.mem_cons_self) Disk.twoFiles_linkFree Disk.twoFiles_sound (by decide)
    hplain (List.mem_cons_of_mem _ List.mem_cons_self)
  rw [hnames] at hiff hthere
  rw [hfollow] at hthere
  obtain rfl : ["b"] = within :=
    List.append_cancel_right (Found.node.inj (Except.ok.inj hthere)).1
  refine ⟨hfollow, fun source chosen style => (hiff source chosen style).mpr ?_⟩
  exact fun inner hne hinner => hfree inner ((List.mem_inits _ _).mpr hinner) hne

/-- Two modules, one of which has a store that is a module itself. -/
def Disk.nestedModule : Disk where
  entries :=
    [(["t"], .directory), (["t", "package.json"], .file (Text.encode "\x7b\x7d")),
     (["b"], .directory), (["b", "package.json"], .file (Text.encode "\x7b\x7d")),
     (["b", "src"], .directory), (["b", "src", "store"], .directory),
     (["b", "src", "store", "X"], .directory),
     (["b", "src", "store", "X", "package.json"], .file (Text.encode "\x7b\x7d")),
     (["b", "src", "store", "X", "X.js"], .file (Text.encode "export const a = 1;"))]

/-- The override of a store that is a module itself. -/
def Job.nestedModule : Job :=
  { Job.store with
    sourceModule := ⟨⟨"/", ["b", "src", "store", "X"]⟩, .text "X", .text "theme", .null⟩ }

set_option maxRecDepth 10000 in
/-- **A module inside of a resource makes the import path denote another file.** The store of the
module `b` is the module `X` itself, so that its file is `X/X`; the override imports it from where the
file would be in `X` if the store were there once more. -/
theorem not_denotes_nestedModule :
    Disk.nestedModule.LinkFree ∧
    Prepared {} Task.store ⟨⟨"/", ["t"]⟩, .text "t", .text "theme", .null⟩ Disk.nestedModule
      (some (Job.nestedModule, ["X.js"])) ∧
    Disk.nestedModule.follow true (Job.nestedModule.sourcePath "X.js") =
      .ok (.node ["b", "src", "store", "X", "X.js"] (.file (Text.encode "export const a = 1;"))) ∧
    ∀ source chosen style,
      ¬ Job.nestedModule.Denotes (Job.nestedModule.plan "X.js" source chosen style).sourcePath
        ["b", "src", "store", "X", "X.js"] := by
  refine ⟨?_, ?_, by decide, fun source chosen style hdenotes => ?_⟩
  · intro e he target
    simp only [Disk.nestedModule, List.mem_cons, List.not_mem_nil, or_false] at he
    rcases he with rfl | rfl | rfl | rfl | rfl | rfl | rfl | rfl | rfl <;> simp
  · have hlocate : (locate Disk.nestedModule {} .store "X" ⟨"/", ["t"]⟩
        (some (.ofString "/b"))).2 = .ok ⟨"/", ["b", "src", "store", "X"]⟩ := by decide
    have hsource : moduleAt Disk.nestedModule {} ⟨"/", ["b", "src", "store", "X"]⟩ =
        .ok ⟨⟨"/", ["b", "src", "store", "X"]⟩, .text "X", .text "theme", .null⟩ := by rfl
    have hcan : canExtend Disk.nestedModule ⟨"/", ["b", "src", "store", "X"]⟩
        ⟨"/", ["b", "src", "store", "X"]⟩ ⟨"/", ["t"]⟩ .store "X" = .ok ([], true) := by
      decide
    have hfiles : fileList Disk.nestedModule {} .store "X" ⟨"/", ["b", "src", "store", "X"]⟩ =
        .ok ["X.js"] := fileList_of_pairwise (by decide) (by decide) (List.pairwise_singleton _ _)
    have hdirectory : targetDirectory Disk.nestedModule ⟨"", ["src", "store", "X"]⟩ ⟨"/", ["t"]⟩
        false (.text "X") = .ok ⟨"/", ["t", "src", "store", "X"]⟩ := by decide
    exact .found hlocate hsource hcan hfiles hdirectory
  · have hmore : ∀ n ∈ ["X"], Path.IsName n := by
      unfold Path.IsName
      decide
    have hfile : Path.IsName "X.js" := by
      unfold Path.IsName
      decide
    have hroot : Job.nestedModule.sourceModule.root.names = ["b"] ++ ["src", "store", "X"] := by rfl
    cases (Job.denotes_iff_eq_nil source chosen style (by rfl) hmore hfile hroot).mp hdenotes

end ThemeOverride
