import ThemeOverride.Proofs.Disk.Rewrite
import ThemeOverride.Proofs.Module.Location
import ThemeOverride.Proofs.Run.Again
import ThemeOverride.Proofs.Run.Prediction

/-!
# Source files that do not touch each other

Two runs are made on disks that differ only in what reading one source file of the resource gives,
with operators who differ only in their answers about that file. For every other source file the same
is asked, and the same override is created or none.

## Main results

* `ThemeOverride.Job.turn_congr` — what is told of a source file depends on its own text and on the
  answers about it alone.
* `ThemeOverride.Prepared.rewrite` — the resource is found alike, whatever is in its files.
* `ThemeOverride.extend_independent` — two runs come to the same for all other source files.
-/

namespace ThemeOverride

namespace Disk

variable {d : Disk} {change : Place → List UInt8 → List UInt8} {p : Path}

lemma admits_rewrite : (d.rewrite change).admits p = d.admits p := by
  unfold admits makeDirectories
  rw [makeDirectoriesUpTo_rewrite]
  cases d.makeDirectoriesUpTo p.parent p.parent.names.length with
  | mk made refused =>
    cases refused with
    | some fault => rfl
    | none => simp

lemma Honest.rewrite (h : d.Honest p) : (d.rewrite change).Honest p := by
  intro place node hfollow
  unfold makeDirectories at hfollow
  rw [makeDirectoriesUpTo_rewrite, follow_rewrite] at hfollow
  rw [exists_rewrite]
  cases hd : (d.makeDirectoriesUpTo p.parent p.parent.names.length).1.follow false p with
  | error cause => rw [hd] at hfollow; cases hfollow
  | ok found =>
    cases found with
    | vacant place => rw [hd] at hfollow; cases hfollow
    | node place node => exact h place node hd

lemma Proper.rewrite (h : d.Proper) (change : Place → List UInt8 → List UInt8) :
    (d.rewrite change).Proper := by
  refine ⟨h.here, fun place target hlink => h.links place target ?_⟩
  rw [node?_rewrite] at hlink
  cases hn : d.node? place with
  | none => rw [hn] at hlink; cases hlink
  | some node =>
    rw [hn] at hlink
    cases node with
    | directory => cases hlink
    | file content => cases hlink
    | link other => exact hlink

lemma Sound.rewrite (h : d.Sound) (change : Place → List UInt8 → List UInt8) :
    (d.rewrite change).Sound := by
  refine { h.toProper.rewrite change with entries := ?_, noUp := h.noUp }
  intro e he
  obtain ⟨e', he', rfl⟩ := List.mem_map.mp he
  exact h.entries e' he'

end Disk

/-! ## Names of overrides -/

lemma dropNewline_append (s : List Char) : (Text.dropNewline s).1 ++ (Text.dropNewline s).2 = s := by
  unfold Text.dropNewline
  split
  · rename_i rest h
    simpa using (congrArg List.reverse h).symm
  · simp

/-- A name without types is a name. -/
lemma isName_untypedFileName {name : String} (h : Path.IsName name ∧ name ≠ "..") :
    Path.IsName (untypedFileName name) ∧ untypedFileName name ≠ ".." := by
  unfold untypedFileName replaceEnding
  have hparts := dropNewline_append name.toList
  cases hdrop : Text.dropNewline name.toList with
  | mk body newline =>
    rw [hdrop] at hparts
    dsimp only at hparts ⊢
    split
    · exact h
    · rename_i stem hstem
      have hsub : ∀ c ∈ stem, c ∈ name.toList := by
        obtain ⟨ending, -, hending⟩ := List.exists_of_findSome?_eq_some hstem
        unfold Text.dropEnding? at hending
        split at hending
        · cases hending
          intro c hc
          rw [← hparts]
          exact List.mem_append_left _ (List.mem_of_mem_take hc)
        · cases hending
      have hnewline : ∀ c ∈ newline, c ∈ name.toList := fun c hc => by
        rw [← hparts]
        exact List.mem_append_right _ hc
      have hmem : 'j' ∈ (String.ofList (stem ++ ".js".toList ++ newline)).toList := by simp
      refine ⟨⟨?_, ?_, fun hslash => ?_⟩, ?_⟩
      · intro he
        rw [he] at hmem
        simp at hmem
      · intro he
        rw [he] at hmem
        simp at hmem
      · have hno := h.1.2.2
        simp only [String.toList_ofList, List.mem_append] at hslash
        rcases hslash with (hslash | hslash) | hslash
        · exact hno (hsub _ hslash)
        · simp at hslash
        · exact hno (hnewline _ hslash)
      · intro he
        rw [he] at hmem
        simp at hmem

section

variable {settings : Settings} {task : Task} {target : Module} {d : Disk} {job : Job}
  {files : List String} {fileName : String} {change : Place → List UInt8 → List UInt8}

lemma Prepared.task_eq (h : Prepared settings task target d (some (job, files))) :
    job.task = task ∧ job.settings = settings := by
  cases h
  exact ⟨rfl, rfl⟩

/-- A query has one file. -/
lemma Prepared.ne_query (h : Prepared settings task target d (some (job, files)))
    {other : String} (hf : fileName ∈ files) (hother : other ∈ files) (hne : fileName ≠ other) :
    task.type ≠ .query := by
  intro htype
  cases h with
  | found _ _ _ hfiles _ =>
    rw [fileList, htype] at hfiles
    obtain rfl := Except.ok.inj hfiles
    exact hne ((List.mem_singleton.mp hf).trans (List.mem_singleton.mp hother).symm)

/-- The files of a resource are names in its directory, at which files lie. -/
lemma Prepared.exists_list (h : Prepared settings task target d (some (job, files)))
    (htype : task.type ≠ .query) (hf : fileName ∈ files) :
    (∃ names, d.list job.resource = .ok names ∧ fileName ∈ names) ∧
      d.isFile (job.sourcePath fileName) = true := by
  cases h with
  | @found resource directory source notes files hlocate hsource hcan hfiles hdirectory =>
    unfold fileList at hfiles
    rw [if_neg (by simpa using htype)] at hfiles
    split at hfiles
    · cases hfiles
    · rename_i names hlist
      cases hfiles
      obtain ⟨hname, hsource⟩ := List.mem_filter.mp (List.mem_mergeSort.mp hf)
      unfold isSourceFile at hsource
      simp only [Bool.and_eq_true] at hsource
      refine ⟨⟨names, hlist, hname⟩, ?_⟩
      unfold Job.sourcePath
      rw [if_neg (by simpa using htype)]
      exact hsource.1.1

/-- The files of a resource are source files in its directory, with names that paths spell. -/
lemma Prepared.mem_files (h : Prepared settings task target d (some (job, files)))
    (htype : task.type ≠ .query) (hs : d.Sound) (hf : fileName ∈ files) :
    d.isFile (job.sourcePath fileName) = true ∧
      Path.IsName (job.targetName fileName) ∧ job.targetName fileName ≠ ".." := by
  obtain ⟨⟨names, hlist, hname⟩, hfile⟩ := h.exists_list htype hf
  refine ⟨hfile, ?_⟩
  have hreal := hs.isName_of_list hlist fileName hname
  unfold Job.targetName
  split
  · exact hreal
  · exact isName_untypedFileName hreal

section Rewriting

variable (hmarkers : ∀ root : Path, (d.rewrite change).read (root.child settings.markerFile) =
  d.read (root.child settings.markerFile))

include hmarkers

lemma moduleAt_rewrite_eq (p : Path) :
    moduleAt (d.rewrite change) settings p = moduleAt d settings p :=
  moduleAt_rewrite fun root _ => hmarkers root

lemma locate_rewrite_eq {type : ResourceType} {name : String} {root found : Path}
    {source : Option Path} (h : (locate d settings type name root source).2 = .ok found) :
    locate (d.rewrite change) settings type name root source =
      locate d settings type name root source := by
  cases source with
  | some p =>
    have hroot : moduleRoot (d.rewrite change) settings.markerFile p =
        moduleRoot d settings.markerFile p := moduleRoot_rewrite _ _ _ _
    have hsearch : ∀ t, searchTrail (d.rewrite change) settings type name t [] =
        searchTrail d settings type name t [] := fun t => searchTrail_rewrite t []
    unfold locate
    dsimp only
    rw [hroot]
    cases moduleRoot d settings.markerFile p with
    | error f => rfl
    | ok winner => exact hsearch _
  | none =>
    obtain ⟨m, hm⟩ : ∃ m, moduleAt d settings root = .ok m := by
      cases hm : moduleAt d settings root with
      | ok m => exact ⟨m, rfl⟩
      | error f =>
        have hcandidates : candidates d settings root = .failed f := by simp only [candidates, hm]
        rw [locate, hcandidates] at h
        cases h
    obtain ⟨before, winner, after, hroots, hbefore, hwinner⟩ := searchTrail_ok h
    have hsame := locate_rewrite [] hm hroots hbefore hwinner fun q hq => absurd (hmarkers q) hq
    rwa [List.append_nil] at hsame

/-- **The resource is found alike, whatever is in its files**, if the manifests are read alike. -/
theorem Prepared.rewrite (h : Prepared settings task target d (some (job, files))) :
    Prepared settings task target (d.rewrite change) (some (job, files)) := by
  cases h with
  | @found resource directory source notes files hlocate hsource hcan hfiles hdirectory =>
    have hlocate' := hlocate
    rw [← locate_rewrite_eq hmarkers hlocate] at hlocate'
    rw [← moduleAt_rewrite_eq hmarkers] at hsource
    have hcan' : canExtend (d.rewrite change) resource source.root target.root task.type
        task.name = .ok (notes, true) := by
      unfold canExtend
      rw [Disk.exists_rewrite, resolvePath_rewrite, resolvePath_rewrite]
      exact hcan
    refine .found hlocate' hsource hcan' ?_ ?_
    · unfold fileList isSourceFile
      rw [Disk.list_rewrite]
      simp only [Disk.isFile_rewrite]
      exact hfiles
    · unfold targetDirectory
      rw [resolvePath_rewrite]
      exact hdirectory

end Rewriting

/-! ## Two runs -/

section Congruence

variable {answers answers' : Answers}

/-- **What is told of a source file depends on its own text and on the answers about it alone.** -/
theorem Job.turn_congr
    (hread : (d.rewrite change).read (job.sourcePath fileName) = d.read (job.sourcePath fileName))
    (hexports : ∀ offered, answers'.exports (Console.exportPrompt fileName) offered =
      answers.exports (Console.exportPrompt fileName) offered)
    (hstyle : job.task.type.carriesStyles fileName = true →
      answers'.style Console.stylePrompt = answers.style Console.stylePrompt) :
    job.turn answers' (d.rewrite change) fileName = job.turn answers d fileName := by
  have hanswer : job.styleAnswer answers' fileName = job.styleAnswer answers fileName := by
    unfold styleAnswer
    split
    · rename_i hcarries
      rw [hstyle hcarries]
    · rfl
  have hwith : ∀ source admitted, job.turnWith answers' fileName source admitted =
      job.turnWith answers fileName source admitted := fun source admitted => by
    unfold turnWith
    simp only [hexports, hanswer]
  unfold turn readText
  rw [Disk.exists_rewrite, hread, Disk.admits_rewrite]
  simp only [hwith]

end Congruence

end

/-- **A run bears out what is told of a source file** from the disk before it. -/
theorem extend_bears {σ : Type} {op : Operator σ} {answers : Answers} (hop : op.Follows answers)
    {tidier : Tidier} {settings : Settings} {task : Task} {d : Disk} {o : σ}
    {created : List String} {s : Scene σ}
    (hrun : extend op tidier settings task ⟨d, o, []⟩ = (.ok created, s)) (hd : d.Proper)
    (hp : task.target.Proper) {target : Module} {job : Job} {files : List String}
    (ht : moduleAt d settings task.target = .ok target)
    (hprepared : Prepared settings task target d (some (job, files))) (hs : job.Separate files)
    {fileName : String} (hf : fileName ∈ files) (hhonest : d.Honest (job.targetPath fileName))
    (hsource : d.isFile (job.sourcePath fileName) = true) :
    turnOf fileName (Run.questions s) = (job.turn answers d fileName).asked ∧
      ((job.targetPath fileName).toString ∈ created ↔
        (job.turn answers d fileName).text.isSome = true) ∧
      ∀ text, (job.turn answers d fileName).text = some text →
        s.disk.read (job.targetPath fileName) = .ok (Text.encode text) := by
  obtain ⟨asked, hasked, hextended⟩ := (extend_behaves hop tidier settings task).of_run hrun
  obtain rfl : Run.questions s = asked := hasked
  dsimp only at hextended
  generalize s.disk = after at hextended
  generalize Run.questions s = asked at hextended
  cases hextended with
  | @intro _ target' found _ _ ht' hprepared' hfinished =>
    obtain rfl := Except.ok.inj (ht.symm.trans ht')
    obtain rfl := hprepared.unique hprepared'
    cases hfinished with
    | @handled _ _ _ _ paths _ hh =>
      obtain ⟨hturn, hmem, htext⟩ := hh.bears hs hf hhonest hsource
      have hdirectory := hprepared.proper hd hp ht
      refine ⟨hturn, ⟨fun h => ?_, fun h => List.mem_map_of_mem (hmem.mpr h)⟩, htext⟩
      obtain ⟨p, hpath, htostring⟩ := List.mem_map.mp h
      rw [Path.eq_of_toString_eq (hh.proper_created hdirectory p hpath) (hdirectory.child _)
        htostring] at hpath
      exact hmem.mp hpath

/-- **What comes of a source file does not depend on the others.** Two runs are made on disks that
differ only in what is in the files, with operators whose answers depend on the question alone. Of the
source files of the resource, all but one are read alike and asked about alike, and no manifest is
read differently. The overrides have different names, and none that of the style file, which lies
among them. If both runs give a result, then for every other source file the same is asked, and the
same override is created or none, as long as its path hides nothing. -/
theorem extend_independent {σ : Type} {op op' : Operator σ} {answers answers' : Answers}
    (hop : op.Follows answers) (hop' : op'.Follows answers') (tidier : Tidier)
    {settings : Settings} {task : Task} {d : Disk} (change : Place → List UInt8 → List UInt8)
    {o o' : σ} {created created' : List String} {s s' : Scene σ}
    (hrun : extend op tidier settings task ⟨d, o, []⟩ = (.ok created, s))
    (hrun' : extend op' tidier settings task ⟨d.rewrite change, o', []⟩ = (.ok created', s'))
    (hs : d.Sound) (hp : task.target.Proper) {target : Module} {job : Job} {files : List String}
    (ht : moduleAt d settings task.target = .ok target)
    (hprepared : Prepared settings task target d (some (job, files)))
    (hnodup : (files.map job.targetName).Nodup)
    (hother : ∀ f ∈ files, job.task.type.carriesStyles f = true →
      job.styleName ∉ files.map job.targetName)
    (hstyle : ∀ f ∈ files, job.task.type.carriesStyles f = true →
      Path.IsName job.styleName ∧ job.styleName ≠ "..") {g : String} (hg : g ∈ files)
    (hhonest : ∀ f ∈ files, f ≠ g → d.Honest (job.targetPath f))
    (hmarkers : ∀ root : Path, (d.rewrite change).read (root.child settings.markerFile) =
      d.read (root.child settings.markerFile))
    (hread : ∀ f ∈ files, f ≠ g →
      (d.rewrite change).read (job.sourcePath f) = d.read (job.sourcePath f))
    (hexports : ∀ f ∈ files, f ≠ g → ∀ offered, answers'.exports (Console.exportPrompt f) offered =
      answers.exports (Console.exportPrompt f) offered)
    (hstyles : ∀ f ∈ files, f ≠ g → job.task.type.carriesStyles f = true →
      answers'.style Console.stylePrompt = answers.style Console.stylePrompt) :
    ∀ f ∈ files, f ≠ g →
      turnOf f (Run.questions s') = turnOf f (Run.questions s) ∧
      ((job.targetPath f).toString ∈ created' ↔ (job.targetPath f).toString ∈ created) ∧
      ((job.targetPath f).toString ∈ created → ∃ text,
        s.disk.read (job.targetPath f) = .ok (Text.encode text) ∧
        s'.disk.read (job.targetPath f) = .ok (Text.encode text)) := by
  intro f hf hne
  have hquery := hprepared.ne_query hf hg hne
  have hseparate : job.Separate files :=
    ⟨fun f hf => (hprepared.mem_files hquery hs hf).2, hnodup, fun f hf hcarries =>
      have ⟨hname, hup⟩ := hstyle f hf hcarries
      ⟨hname, hup, hother f hf hcarries⟩⟩
  have hsource := (hprepared.mem_files hquery hs hf).1
  have hturn : job.turn answers' (d.rewrite change) f = job.turn answers d f :=
    job.turn_congr (hread f hf hne) (hexports f hf hne) (hstyles f hf hne)
  obtain ⟨hasked, hcreated, htext⟩ := extend_bears hop hrun hs.toProper hp ht hprepared hseparate
    hf (hhonest f hf hne) hsource
  obtain ⟨hasked', hcreated', htext'⟩ := extend_bears hop' hrun' (hs.toProper.rewrite change) hp
    ((moduleAt_rewrite_eq hmarkers _).trans ht) (hprepared.rewrite hmarkers) hseparate hf
    (hhonest f hf hne).rewrite ((d.isFile_rewrite change _).trans hsource)
  rw [hturn] at hasked' hcreated' htext'
  refine ⟨hasked'.trans hasked.symm, hcreated'.trans hcreated.symm, fun hmem => ?_⟩
  obtain ⟨text, ht⟩ := Option.isSome_iff_exists.mp (hcreated.mp hmem)
  exact ⟨text, htext text ht, htext' text ht⟩


/-! ## Two source files -/

/-- Two modules, one of which has a store with two files. -/
def Disk.twoFiles : Disk where
  entries :=
    [(["t"], .directory), (["t", "package.json"], .file (Text.encode "\x7b\x7d")),
     (["b"], .directory), (["b", "package.json"], .file (Text.encode "\x7b\x7d")),
     (["b", "src"], .directory), (["b", "src", "store"], .directory),
     (["b", "src", "store", "X"], .directory),
     (["b", "src", "store", "X", "X.container.js"], .file (Text.encode "export const a = 1;")),
     (["b", "src", "store", "X", "X.js"], .file (Text.encode "export const b = 1;"))]

/-- The disk on which the path for one override is a link to that for the other. -/
def Disk.linkedTarget : Disk where
  entries := Disk.twoFiles.entries ++
    [(["t", "src"], .directory), (["t", "src", "store"], .directory),
     (["t", "src", "store", "X"], .directory),
     (["t", "src", "store", "X", "X.js"], .link (.ofString "X.container.js"))]

/-- The store of one of the two modules is to be extended in the other. -/
def Task.store : Task where
  type := .store
  name := "X"
  target := .ofString "/t"
  source := some (.ofString "/b")

/-- The override of a file of the store. -/
def Job.store : Job where
  task := Task.store
  settings := {}
  resource := ⟨"/", ["b", "src", "store", "X"]⟩
  sourceModule := ⟨⟨"/", ["b"]⟩, .text "b", .text "theme", .null⟩
  directory := ⟨"/", ["t", "src", "store", "X"]⟩

/-- The first of the two files exports nothing. -/
def hideContainer (place : Place) (content : List UInt8) : List UInt8 :=
  if place = ["b", "src", "store", "X", "X.container.js"] then Text.encode "const a = 1;" else content

lemma Task.moduleAt_store {d : Disk} (hd : d ∈ [Disk.twoFiles, Disk.linkedTarget]) :
    moduleAt d {} Task.store.target = .ok ⟨⟨"/", ["t"]⟩, .text "t", .text "theme", .null⟩ := by
  simp only [List.mem_cons, List.not_mem_nil, or_false] at hd
  rcases hd with rfl | rfl
  · rfl
  · rfl

lemma Task.prepared_store {d : Disk} (hd : d ∈ [Disk.twoFiles, Disk.linkedTarget]) :
    Prepared {} Task.store ⟨⟨"/", ["t"]⟩, .text "t", .text "theme", .null⟩ d
      (some (Job.store, ["X.container.js", "X.js"])) := by
  have hfiles : fileList d {} .store "X" ⟨"/", ["b", "src", "store", "X"]⟩ =
      .ok ["X.container.js", "X.js"] := by
    refine fileList_of_pairwise (by decide) ?_ (by decide)
    revert d
    decide
  have hsource : moduleAt d {} ⟨"/", ["b", "src", "store", "X"]⟩ =
      .ok ⟨⟨"/", ["b"]⟩, .text "b", .text "theme", .null⟩ := by
    simp only [List.mem_cons, List.not_mem_nil, or_false] at hd
    rcases hd with rfl | rfl
    · rfl
    · rfl
  have hlocate : (locate d {} .store "X" ⟨"/", ["t"]⟩ (some (.ofString "/b"))).2 =
      .ok ⟨"/", ["b", "src", "store", "X"]⟩ := by
    clear hfiles hsource
    revert d
    decide
  have hcan : canExtend d ⟨"/", ["b", "src", "store", "X"]⟩ ⟨"/", ["b"]⟩ ⟨"/", ["t"]⟩ .store "X" =
      .ok ([], true) := by
    clear hfiles hsource hlocate
    revert d
    decide
  have hdirectory : targetDirectory d ⟨"", ["src", "store", "X"]⟩ ⟨"/", ["t"]⟩ false (.text "b") =
      .ok ⟨"/", ["t", "src", "store", "X"]⟩ := by
    clear hfiles hsource hlocate hcan
    revert d
    decide
  exact .found hlocate hsource hcan hfiles hdirectory

lemma Disk.twoFiles_linkFree : Disk.twoFiles.LinkFree := by
  intro e he target
  simp only [Disk.twoFiles, List.mem_cons, List.not_mem_nil, or_false] at he
  rcases he with rfl | rfl | rfl | rfl | rfl | rfl | rfl | rfl | rfl <;> simp

lemma Disk.twoFiles_sound : Disk.twoFiles.Sound where
  here := by simp [Disk.twoFiles]
  links place target h := absurd h (Disk.twoFiles_linkFree.node?_ne_link place target)
  entries := by
    unfold Path.IsName
    decide
  noUp := by decide

/-- A change that leaves manifests alone. -/
lemma Disk.read_package_rewrite {change : Place → List UInt8 → List UInt8}
    (h : ∀ place content, place.getLast? = some "package.json" → change place content = content)
    (root : Path) : (Disk.twoFiles.rewrite change).read (root.child "package.json") =
      Disk.twoFiles.read (root.child "package.json") := by
  refine Disk.twoFiles.read_rewrite_eq change fun place content hfollow => h place content ?_
  rw [Path.child_of_isName (by unfold Path.IsName; decide)] at hfollow
  obtain ⟨above, habove⟩ :=
    isDirectory_iff.mp (isDirectory_above (List.cons_ne_nil "package.json" []) hfollow)
  rw [follow_child (by decide) (fun _ => twoFiles_linkFree.node?_ne_link _) habove, endAt] at hfollow
  have hplace : place = above ++ ["package.json"] := by
    split at hfollow
    · cases hfollow
    · cases hfollow
      rfl
  rw [hplace, List.getLast?_concat]

lemma Disk.read_hideContainer (root : Path) :
    (Disk.twoFiles.rewrite hideContainer).read (root.child "package.json") =
      Disk.twoFiles.read (root.child "package.json") := by
  refine Disk.read_package_rewrite (fun place content hlast => ?_) root
  rw [hideContainer, if_neg]
  rintro rfl
  simp at hlast

lemma Answers.only_eq_eager (fileName : String) (offered : List ExportRecord) :
    (Answers.only fileName).exports (Console.exportPrompt fileName) offered =
      Answers.eager.exports (Console.exportPrompt fileName) offered := by
  simp [Answers.only, Answers.eager]

/-- Nothing lies at the path for the second override. -/
lemma Disk.twoFiles_honest : Disk.twoFiles.Honest (Job.store.targetPath "X.js") := by
  have hvacant : (Disk.twoFiles.makeDirectories (Job.store.targetPath "X.js").parent).1.follow false
      (Job.store.targetPath "X.js") = .ok (.vacant ["t", "src", "store", "X", "X.js"]) := by
    decide +kernel
  intro place node hfollow
  rw [hvacant] at hfollow
  cases hfollow

set_option maxRecDepth 10000 in
/-- The second file is written in both runs, though the first is not written in the second run. -/
theorem extend_independent_twoFiles : ∃ s s' : Scene Unit,
    extend Operator.eager (fun _ _ _ => {}) {} Task.store ⟨Disk.twoFiles, (), []⟩ =
      (.ok ["/t/src/store/X/X.container.js", "/t/src/store/X/X.js"], s) ∧
    extend (Answers.only "X.js").operator (fun _ _ _ => {}) {} Task.store
      ⟨Disk.twoFiles.rewrite hideContainer, (), []⟩ = (.ok ["/t/src/store/X/X.js"], s') ∧
    turnOf "X.js" (Run.questions s') = turnOf "X.js" (Run.questions s) ∧
    ∃ text, s.disk.read (Job.store.targetPath "X.js") = .ok (Text.encode text) ∧
      s'.disk.read (Job.store.targetPath "X.js") = .ok (Text.encode text) := by
  obtain ⟨hfirst, hsecond⟩ : (Job.store.handleAll Operator.eager ["X.container.js", "X.js"]
      ⟨Disk.twoFiles, (), []⟩).1 = .ok [⟨"/", ["t", "src", "store", "X", "X.container.js"]⟩,
        ⟨"/", ["t", "src", "store", "X", "X.js"]⟩] ∧
      (Job.store.handleAll (Answers.only "X.js").operator ["X.container.js", "X.js"]
      ⟨Disk.twoFiles.rewrite hideContainer, (), []⟩).1 =
        .ok [⟨"/", ["t", "src", "store", "X", "X.js"]⟩] := by decide +kernel
  have hprepared := Task.prepared_store (d := Disk.twoFiles) List.mem_cons_self
  have htarget := Task.moduleAt_store (d := Disk.twoFiles) List.mem_cons_self
  have hmarkers : ∀ root : Path, (Disk.twoFiles.rewrite hideContainer).read
      (root.child ({} : Settings).markerFile) =
        Disk.twoFiles.read (root.child ({} : Settings).markerFile) := Disk.read_hideContainer
  have htarget' : moduleAt (Disk.twoFiles.rewrite hideContainer) {} Task.store.target =
      .ok ⟨⟨"/", ["t"]⟩, .text "t", .text "theme", .null⟩ := by
    rw [moduleAt_rewrite_eq hmarkers, htarget]
  obtain ⟨s, hrun, -⟩ := exists_extend Operator.eager_follows (fun _ _ _ => {}) htarget hprepared
    hfirst
  obtain ⟨s', hrun', -⟩ := exists_extend (Answers.only "X.js").operator_follows (fun _ _ _ => {})
    htarget' (hprepared.rewrite hmarkers) hsecond
  have hread : (Disk.twoFiles.rewrite hideContainer).read (Job.store.sourcePath "X.js") =
      Disk.twoFiles.read (Job.store.sourcePath "X.js") := by decide
  have hlast : ∀ f ∈ ["X.container.js", "X.js"], f ≠ "X.container.js" → f = "X.js" := by simp
  have hnone : ∀ {f : String} {P : Prop}, Job.store.task.type.carriesStyles f = true → P :=
    fun hcarries => by cases hcarries
  obtain ⟨hasked, -, htext⟩ := extend_independent Operator.eager_follows
    (Answers.only "X.js").operator_follows (fun _ _ _ => {}) hideContainer hrun hrun'
    Disk.twoFiles_sound (Path.proper_ofString "/t") htarget hprepared (by decide)
    (fun f _ hcarries => hnone hcarries) (fun f _ hcarries => hnone hcarries)
    List.mem_cons_self (fun f hf hne => hlast f hf hne ▸ Disk.twoFiles_honest) hmarkers
    (fun f hf hne => hlast f hf hne ▸ hread)
    (fun f hf hne => hlast f hf hne ▸ Answers.only_eq_eager "X.js")
    (fun f _ _ hcarries => hnone hcarries) "X.js" (by simp) (by decide)
  exact ⟨s, s', hrun, hrun', hasked, htext (by decide)⟩

set_option maxRecDepth 10000 in
/-- The first file is asked about and written. The second is passed over. -/
lemma Job.handleAll_linkedTarget :
    (Job.store.handleAll Operator.eager ["X.container.js", "X.js"] ⟨Disk.linkedTarget, (), []⟩).1 =
      .ok [⟨"/", ["t", "src", "store", "X", "X.container.js"]⟩] ∧
    Run.questions (Job.store.handleAll Operator.eager ["X.container.js", "X.js"]
      ⟨Disk.linkedTarget, (), []⟩).2 =
        [.askedExports (Console.exportPrompt "X.container.js") [⟨"a", (0, 19), .value, false, []⟩]] := by
  decide +kernel

set_option maxRecDepth 10000 in
/-- **A link can make one source file depend on another.** The path for the second override is a link
to that for the first. If the first is written, the second counts as there, and nothing is asked about
it. -/
theorem turnOf_ne_linkedTarget : ∃ s s' : Scene Unit,
    extend Operator.eager (fun _ _ _ => {}) {} Task.store ⟨Disk.linkedTarget, (), []⟩ =
      (.ok ["/t/src/store/X/X.container.js"], s) ∧
    extend (Answers.only "X.js").operator (fun _ _ _ => {}) {} Task.store
      ⟨Disk.linkedTarget, (), []⟩ = (.ok [], s') ∧
    (∀ offered, (Answers.only "X.js").exports (Console.exportPrompt "X.js") offered =
      Answers.eager.exports (Console.exportPrompt "X.js") offered) ∧
    turnOf "X.js" (Run.questions s) ≠ turnOf "X.js" (Run.questions s') := by
  obtain ⟨hfirst, hasked⟩ := Job.handleAll_linkedTarget
  obtain ⟨hsecond, hasked'⟩ : (Job.store.handleAll (Answers.only "X.js").operator
      ["X.container.js", "X.js"] ⟨Disk.linkedTarget, (), []⟩).1 = .ok [] ∧
      turnOf "X.js" (Run.questions (Job.store.handleAll (Answers.only "X.js").operator
        ["X.container.js", "X.js"] ⟨Disk.linkedTarget, (), []⟩).2) ≠ [] := by decide +kernel
  have hmem : Disk.linkedTarget ∈ [Disk.twoFiles, Disk.linkedTarget] := by simp
  obtain ⟨s, hrun, -, hquestions⟩ := exists_extend Operator.eager_follows (fun _ _ _ => {})
    (Task.moduleAt_store hmem) (Task.prepared_store hmem) hfirst
  obtain ⟨s', hrun', -, hquestions'⟩ := exists_extend (Answers.only "X.js").operator_follows
    (fun _ _ _ => {}) (Task.moduleAt_store hmem) (Task.prepared_store hmem) hsecond
  refine ⟨s, s', hrun, hrun', Answers.only_eq_eager "X.js", ?_⟩
  have hnone : turnOf "X.js" (Run.questions s) = [] := by
    rw [hquestions, hasked]
    decide
  rw [hnone, hquestions']
  exact hasked'.symm

end ThemeOverride
