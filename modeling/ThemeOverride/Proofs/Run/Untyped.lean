import ThemeOverride.Proofs.Override.Exports
import ThemeOverride.Proofs.Run.Contents

/-!
# Overrides without types

An override that is written with plain words and says nothing of types itself has types exactly
where its default export has. In a run without types no override says anything of types, but the
default export and the copied imports may: assertions and imports of types are left out of them,
annotations and the types among other imported names are not.

## Main definitions

* `ThemeOverride.Job.AccountsForTypes` — when a new file of a run has types.

## Main results

* `ThemeOverride.OverridePlan.isUntyped_text` — when an override has types.
* `ThemeOverride.extend_untyped` — when the overrides of a run have types.
* `ThemeOverride.extend_inlineType` — a type among other imported names is copied.
-/

namespace ThemeOverride

open Script Analysis

variable {σ : Type}

/-! ## The types of an override -/

namespace OverridePlan

variable {plan : OverridePlan} {text : String}

/-- What has no types says nothing of types. -/
lemma writesTypes_eq_false (h : plan.IsRecorded) (huntyped : plan.isTypescript = false) :
    plan.writesTypes = false := by
  unfold writesTypes typePassthrough
  rw [huntyped, Bool.or_eq_false_iff]
  refine ⟨by simp, ?_⟩
  rw [List.any_eq_false]
  intro r hr
  have hkind := h.types r (plan.mem_extended.mp hr).1
  rw [huntyped] at hkind
  cases hk : r.kind <;> simp_all [ExportKind.isTypeOnly, ExportKind.writesTypes]

/-- **The types of an override** are those of its default export, where it is written with plain
words, copies imports without types and says nothing of types itself. -/
theorem isUntyped_text (hplain : plan.IsPlain false) (hrecorded : plan.IsRecorded)
    (hwrites : plan.writesTypes = false) (hne : plan.allExports ≠ [])
    (hok : synthesize plan = .ok text) :
    (parse plan.dialect text.toList).isUntyped ↔ plan.block.isUntyped := by
  obtain ⟨trees, rest, htells, hblock, hparse⟩ := plan.parse_text hplain (by simp [hwrites])
    (exportPieces_ne_nil hrecorded hne) hok
  have hprogram : ∀ cs, (Script.Tree.node none .program cs).isTypeSyntax = false := fun _ => rfl
  rw [hparse, hblock, Tree.isUntyped_node_iff, Tree.isUntyped_node_iff, List.forall_mem_append]
  simp only [hprogram, true_and]
  exact and_iff_right (htells.untyped rfl)

end OverridePlan

/-! ## The types of a run -/

/-- **What a new file of a run holds, and when it has types**: it is the style file, or the override
of a source file. The latter has types exactly where its default export has, if it is written with
plain words, copies imports without types, and says nothing of types itself. -/
def Job.AccountsForTypes (job : Job) (files : List String) (before after : Disk) (place : Place)
    (content : List UInt8) : Prop :=
  ∃ text, content = Text.encode text ∧
    (after.follow true (stylePath job.settings job.directory job.task.name) =
        .ok (.node place (.file content)) ∨
      ∃ fileName ∈ files, ∃ code chosen style,
        readText before (job.sourcePath fileName) = .ok code ∧
        place.getLast? = some (job.targetName fileName) ∧
        synthesize (job.planOf fileName code chosen style) = .ok text ∧
        ((job.planOf fileName code chosen style).IsPlain false →
          (job.task.isTypescript → (job.planOf fileName code chosen style).writesTypes = false) →
          ((sourceTree text (job.targetName fileName)).isUntyped ↔
            (job.planOf fileName code chosen style).block.isUntyped)))

/-- The override of a source file is read by the grammar that goes with its name. -/
lemma Job.outputName_planOf (job : Job) {fileName code : String} {chosen : List ExportRecord}
    {style : Option StyleOption} :
    (job.planOf fileName code chosen style).outputName = job.targetName fileName := by
  unfold OverridePlan.outputName targetName
  rw [planOf_isTypescript]
  rfl

/-- When the override of a source file has types. -/
lemma Job.isUntyped_override {job : Job} {fileName code text : String} {chosen : List ExportRecord}
    {style : Option StyleOption} (h : (job.planOf fileName code chosen style).IsPlain false)
    (hwrites : job.task.isTypescript → (job.planOf fileName code chosen style).writesTypes = false)
    (hne : (job.planOf fileName code chosen style).allExports ≠ [])
    (hok : synthesize (job.planOf fileName code chosen style) = .ok text) :
    (sourceTree text (job.targetName fileName)).isUntyped ↔
      (job.planOf fileName code chosen style).block.isUntyped := by
  have hsilent : (job.planOf fileName code chosen style).writesTypes = false := by
    cases htypes : job.task.isTypescript with
    | true => exact hwrites htypes
    | false =>
      exact OverridePlan.writesTypes_eq_false job.isRecorded_planOf
        (job.planOf_isTypescript.trans htypes)
  have huntyped := OverridePlan.isUntyped_text h job.isRecorded_planOf hsilent hne hok
  rw [OverridePlan.dialect, job.outputName_planOf] at huntyped
  exact huntyped

/-- **When the overrides of a run have types.** Whether a run gives a result or fails, every file
that is new after it is a style file, or an override that has types exactly where its default export
has, under the conditions that `Job.AccountsForTypes` names. -/
theorem extend_untyped (op : Operator σ) (tidier : Tidier) (settings : Settings) (task : Task)
    (s : Scene σ) (hs : s.disk.Sound) {place : Place} {content : List UInt8}
    (hnew : (extend op tidier settings task s).2.disk.node? place = some (.file content))
    (hbefore : s.disk.node? place = none) :
    ∃ target job files, moduleAt s.disk settings task.target = .ok target ∧
      Prepared settings task target s.disk (some (job, files)) ∧
      job.AccountsForTypes files s.disk (extend op tidier settings task s).2.disk place content := by
  obtain ⟨transcript, htold, -, -⟩ := extend_tells op tidier settings task s
  obtain ⟨target, job, files, ht, hp, text, hcontent, horigin⟩ := htold.origin_new hs hnew hbefore
  refine ⟨target, job, files, ht, hp, text, hcontent, ?_⟩
  rcases horigin with ⟨hstyle, -⟩ | ⟨fileName, hf, -, hoverride, hlast⟩
  · exact .inl hstyle
  · obtain ⟨code, answer, style, hread, -, hchosen, hok⟩ := hoverride
    have hplan : job.plan fileName (job.reading fileName code)
        (chosenAmong (job.reading fileName code).exports.named answer) style =
        job.planOf fileName code (chosenAmong (job.reading fileName code).exports.named answer)
          style := rfl
    rw [hplan] at hok
    have hne : (job.planOf fileName code
        (chosenAmong (job.reading fileName code).exports.named answer) style).allExports ≠ [] := by
      intro hnone
      have hnamed : (job.reading fileName code).exports.named = [] := hnone
      rw [hnamed] at hchosen
      exact hchosen rfl
    exact .inr ⟨fileName, hf, code, _, style, hread, hlast, hok, fun hplain hwrites =>
      job.isUntyped_override hplain hwrites hne hok⟩

/-- Two modules, one of which has a store with a typed file. -/
def Disk.typedStore (code : String) : Disk where
  entries :=
    [(["t"], .directory), (["t", "package.json"], .file (Text.encode "\x7b\x7d")),
     (["b"], .directory), (["b", "package.json"], .file (Text.encode "\x7b\x7d")),
     (["b", "src"], .directory), (["b", "src", "store"], .directory),
     (["b", "src", "store", "X"], .directory),
     (["b", "src", "store", "X", "X.ts"], .file (Text.encode code))]

lemma Disk.typedStore_sound (code : String) : (Disk.typedStore code).Sound where
  here := by simp [Disk.typedStore]
  links place target h := by
    have hfree : (Disk.typedStore code).LinkFree := by
      intro e he target
      simp only [Disk.typedStore, List.mem_cons, List.not_mem_nil, or_false] at he
      rcases he with rfl | rfl | rfl | rfl | rfl | rfl | rfl | rfl <;> simp
    exact absurd h (hfree.node?_ne_link place target)
  entries := by
    unfold Path.IsName Disk.typedStore
    simp
  noUp := by
    unfold Disk.typedStore
    simp

/-- A source file that imports a type and asserts of its default export that it has it. -/
def assertedDefault : String :=
  "import type \x7b T \x7d from 't';\nimport \x7b b \x7d from 'm';\nexport const a = 1;\n" ++
    "export default b as T;\n"

/-- The override of that file without types. -/
def assertedDefaultOverride : String :=
  "import \x7b b \x7d from 'm';\nimport \x7b a as sourceA \x7d from 'b/src/store/X/X';\n\n" ++
    "export const a = sourceA;\n\nexport default b;\n"

/-- A run that extends the store finds its typed file. -/
lemma Task.prepared_typedStore {code : String}
    (hlocate : (locate (Disk.typedStore code) {} .store "X" ⟨"/", ["t"]⟩
      (some (.ofString "/b"))).2 = .ok ⟨"/", ["b", "src", "store", "X"]⟩)
    (hsource : moduleAt (Disk.typedStore code) {} ⟨"/", ["b", "src", "store", "X"]⟩ =
      .ok ⟨⟨"/", ["b"]⟩, .text "b", .text "theme", .null⟩) :
    Prepared {} Task.store ⟨⟨"/", ["t"]⟩, .text "t", .text "theme", .null⟩
      (Disk.typedStore code) (some (Job.store, ["X.ts"])) := by
  have hfiles : fileList (Disk.typedStore code) {} .store "X" ⟨"/", ["b", "src", "store", "X"]⟩ =
      .ok ["X.ts"] := fileList_of_pairwise (by decide) rfl (by decide)
  have hcan : canExtend (Disk.typedStore code) ⟨"/", ["b", "src", "store", "X"]⟩
      ⟨"/", ["b"]⟩ ⟨"/", ["t"]⟩ .store "X" = .ok ([], true) := rfl
  have hdirectory : targetDirectory (Disk.typedStore code) ⟨"", ["src", "store", "X"]⟩
      ⟨"/", ["t"]⟩ false (.text "b") = .ok ⟨"/", ["t", "src", "store", "X"]⟩ := rfl
  exact .found hlocate hsource hcan hfiles hdirectory

/-- A run that extends the store goes as the reading of its file and the text of its override
say. -/
lemma exists_extend_typedStore {code text : String} {target : Module}
    (ht : moduleAt (Disk.typedStore code) {} Task.store.target = .ok target)
    (hp : Prepared {} Task.store target (Disk.typedStore code) (some (Job.store, ["X.ts"])))
    (hread : readText (Disk.typedStore code) (Job.store.sourcePath "X.ts") = .ok code)
    (hnamed : (Job.store.reading "X.ts" code).exports.named ≠ [])
    (hok : synthesize (Job.store.planOf "X.ts" code (Job.store.reading "X.ts" code).exports.named
      none) = .ok text)
    (hwrite : (writeNew (Disk.typedStore code) (Job.store.targetPath "X.ts") text).2 = .ok true) :
    ∃ s' : Scene Unit, extend Operator.eager (fun _ _ _ => {}) {} Task.store
      ⟨Disk.typedStore code, (), []⟩ = (.ok ["/t/src/store/X/X.js"], s') ∧
      s'.disk = (writeNew (Disk.typedStore code) (Job.store.targetPath "X.ts") text).1 := by
  have hall : chosenAmong (Job.store.reading "X.ts" code).exports.named
      (Job.store.reading "X.ts" code).exports.named =
        (Job.store.reading "X.ts" code).exports.named :=
    List.filter_eq_self.mpr fun _ hr => List.contains_iff_mem.mpr hr
  rw [← hall] at hnamed hok
  have hhandled : Job.store.Handled Answers.eager "X.ts" (Disk.typedStore code) _ _ _ :=
    .overridden rfl rfl hread (by rwa [hall] at hnamed)
      (.chosen rfl (.none rfl) hnamed (.tried hok (Prod.ext rfl hwrite)))
  obtain ⟨s', hrun, hdisk, -⟩ := (extend_behaves Operator.eager_follows (fun _ _ _ => {}) {}
    Task.store).exists_run (s := ⟨Disk.typedStore code, (), []⟩)
    (.intro ht hp (.handled (.cons hhandled .nil)))
  exact ⟨s', hrun, hdisk⟩

/-- The file is written with plain words, so that its override has no types. -/
lemma Job.isPlain_assertedDefault :
    (Job.store.planOf "X.ts" assertedDefault [] none).IsPlain false := by
  obtain ⟨hdialect, hnames, hsource, hresource, himports, hcode⟩ :
      let plan := Job.store.planOf "X.ts" assertedDefault [] none
      plan.dialect = .markup ∧ (∀ r ∈ plan.allExports, isPlainName r.name) ∧
      isPath plan.sourcePath ∧ isPath plan.resourceName ∧
      plan.copiedImports = ["import \x7b b \x7d from 'm';"] ∧
      plan.defaultCode = some "export default b;" := by decide +kernel
  exact isPlain_of_copies hdialect hnames hsource hresource himports hcode

set_option maxRecDepth 10000 in
theorem extend_untyped_assertedDefault : ∃ s' : Scene Unit,
    extend Operator.eager (fun _ _ _ => {}) {} Task.store
      ⟨Disk.typedStore assertedDefault, (), []⟩ = (.ok ["/t/src/store/X/X.js"], s') ∧
    Job.store.AccountsForTypes ["X.ts"] (Disk.typedStore assertedDefault) s'.disk
      ["t", "src", "store", "X", "X.js"] (Text.encode assertedDefaultOverride) ∧
    (Job.store.planOf "X.ts" assertedDefault [] none).IsPlain false ∧
    (Job.store.planOf "X.ts" assertedDefault [] none).block.isUntyped := by
  have htarget : moduleAt (Disk.typedStore assertedDefault) {} Task.store.target =
      .ok ⟨⟨"/", ["t"]⟩, .text "t", .text "theme", .null⟩ := rfl
  have hprepared : Prepared {} Task.store ⟨⟨"/", ["t"]⟩, .text "t", .text "theme", .null⟩
      (Disk.typedStore assertedDefault) (some (Job.store, ["X.ts"])) :=
    Task.prepared_typedStore (by decide) rfl
  obtain ⟨hnamed, htext⟩ : (Job.store.reading "X.ts" assertedDefault).exports.named ≠ [] ∧
      (Job.store.planOf "X.ts" assertedDefault
        (Job.store.reading "X.ts" assertedDefault).exports.named none).text =
          assertedDefaultOverride := by decide +kernel
  have hread : readText (Disk.typedStore assertedDefault) (Job.store.sourcePath "X.ts") =
      .ok assertedDefault := by decide +kernel
  -- the characters are spelled out, as they take long to compute from a long text
  obtain ⟨herrors, hwrite, hnew⟩ :
      hasSyntaxErrors (Dialect.ofFileName "X.js") assertedDefaultOverride.toList = false ∧
      (writeNew (Disk.typedStore assertedDefault) (Job.store.targetPath "X.ts")
        assertedDefaultOverride).2 = .ok true ∧
      (writeNew (Disk.typedStore assertedDefault) (Job.store.targetPath "X.ts")
        assertedDefaultOverride).1.node? ["t", "src", "store", "X", "X.js"] =
          some (.file (Text.encode assertedDefaultOverride)) := by
    unfold assertedDefaultOverride Text.encode
    simp only [String.toList_append]
    rewrite [String.toList_ofList, String.toList_ofList]
    decide +kernel
  obtain ⟨s', hrun, hdisk⟩ := exists_extend_typedStore htarget hprepared hread hnamed
    (synthesize_eq_ok_iff.mpr ⟨htext, herrors⟩) hwrite
  have hstored : (extend Operator.eager (fun _ _ _ => {}) {} Task.store
      ⟨Disk.typedStore assertedDefault, (), []⟩).2.disk.node? ["t", "src", "store", "X", "X.js"] =
        some (.file (Text.encode assertedDefaultOverride)) := by
    rw [hrun, hdisk]
    exact hnew
  obtain ⟨target, job, files, ht, hp, haccounts⟩ := extend_untyped Operator.eager
    (fun _ _ _ => {}) {} Task.store ⟨Disk.typedStore assertedDefault, (), []⟩
    (Disk.typedStore_sound assertedDefault) hstored (by decide)
  rw [hrun] at haccounts
  obtain rfl := Except.ok.inj (htarget.symm.trans ht)
  obtain ⟨rfl, rfl⟩ := Prod.mk.inj (Option.some.inj (hprepared.unique hp))
  exact ⟨s', hrun, haccounts, Job.isPlain_assertedDefault, by decide +kernel⟩

/-- A source file that imports a type among other names. -/
def inlineType : String :=
  "import \x7b type T, b \x7d from 't';\nexport const a = 1;\nexport default b;\n"

/-- The override of that file without types. -/
def inlineTypeOverride : String :=
  "import \x7b type T, b \x7d from 't';\n" ++
    "import \x7b a as sourceA \x7d from 'b/src/store/X/X';\n\n" ++
    "export const a = sourceA;\n\nexport default b;\n"

set_option maxRecDepth 10000 in
/-- A type among other imported names is copied, so that an override without types has one. -/
theorem extend_inlineType :
    (sourceTree inlineType "X.ts").hasError = false ∧
    (extend Operator.eager (fun _ _ _ => {}) {} Task.store
      ⟨Disk.typedStore inlineType, (), []⟩).1 = .ok ["/t/src/store/X/X.js"] ∧
    (extend Operator.eager (fun _ _ _ => {}) {} Task.store
      ⟨Disk.typedStore inlineType, (), []⟩).2.disk.node? ["t", "src", "store", "X", "X.js"] =
        some (.file (Text.encode inlineTypeOverride)) ∧
    (sourceTree inlineTypeOverride "X.js").isUntyped = false := by
  have htarget : moduleAt (Disk.typedStore inlineType) {} Task.store.target =
      .ok ⟨⟨"/", ["t"]⟩, .text "t", .text "theme", .null⟩ := rfl
  obtain ⟨hvalid, hnamed, htext⟩ : (sourceTree inlineType "X.ts").hasError = false ∧
      (Job.store.reading "X.ts" inlineType).exports.named ≠ [] ∧
      (Job.store.planOf "X.ts" inlineType
        (Job.store.reading "X.ts" inlineType).exports.named none).text = inlineTypeOverride := by
    decide +kernel
  have hread : readText (Disk.typedStore inlineType) (Job.store.sourcePath "X.ts") =
      .ok inlineType := by decide +kernel
  -- the characters are spelled out, as they take long to compute from a long text
  obtain ⟨herrors, hwrite, hnew, huntyped⟩ :
      hasSyntaxErrors (Dialect.ofFileName "X.js") inlineTypeOverride.toList = false ∧
      (writeNew (Disk.typedStore inlineType) (Job.store.targetPath "X.ts")
        inlineTypeOverride).2 = .ok true ∧
      (writeNew (Disk.typedStore inlineType) (Job.store.targetPath "X.ts")
        inlineTypeOverride).1.node? ["t", "src", "store", "X", "X.js"] =
          some (.file (Text.encode inlineTypeOverride)) ∧
      (parse (Dialect.ofFileName "X.js") inlineTypeOverride.toList).isUntyped = false := by
    unfold inlineTypeOverride Text.encode
    simp only [String.toList_append]
    rewrite [String.toList_ofList, String.toList_ofList, String.toList_ofList]
    decide +kernel
  obtain ⟨s', hrun, hdisk⟩ := exists_extend_typedStore htarget
    (Task.prepared_typedStore (by decide) rfl) hread hnamed
    (synthesize_eq_ok_iff.mpr ⟨htext, herrors⟩) hwrite
  rw [hrun, hdisk]
  exact ⟨hvalid, rfl, hnew, huntyped⟩

end ThemeOverride
