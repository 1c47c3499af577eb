import ThemeOverride.Proofs.Disk.OneDirectory
import ThemeOverride.Proofs.Run.Turns

/-!
# Turns that are told beforehand

What comes of a source file in a run — the questions that are asked in its turn, and the text of its
override — can be told from the disk before the run and the answers of the operator. It does not
matter which files come before it, nor how their turns end.

## Main definitions

* `ThemeOverride.turnOf` — the questions that are asked in the turn of a source file.
* `ThemeOverride.Job.turn` — what comes of a source file, as it is told beforehand.
* `ThemeOverride.Job.Separate` — the outputs lie in one directory under different names.
* `ThemeOverride.Job.Bears` — a run bears out what was told.

## Main results

* `ThemeOverride.Job.HandledAll.bears` — a run over source files bears out what is told of each.

## Design

The writers look whether a path leads to something, through links. So a link that leads nowhere could
come to lead somewhere by the output for another file. Such paths are not honest
(`ThemeOverride.Disk.Honest`), and nothing is told of them.
-/

namespace ThemeOverride

/-! ## Questions in a turn -/

/-- Whether an event is the question for exports of a source file. -/
def Event.asksFor (fileName : String) : Event → Bool
  | .askedExports prompt _ => prompt == Console.exportPrompt fileName
  | _ => false

/-- Whether an event is the question for styles. -/
def Event.isStyleQuestion : Event → Bool
  | .askedStyle _ => true
  | _ => false

/-- The questions that are asked in the turn of a source file: the one for its exports, and the one
for styles if that comes next. -/
def turnOf (fileName : String) (asked : List Event) : List Event :=
  match asked.dropWhile fun e => !e.asksFor fileName with
  | [] => []
  | e :: rest => e :: rest.takeWhile Event.isStyleQuestion

/-- Questions that make a turn of a source file: none, or one for its exports with one for styles
behind it. -/
inductive IsTurn (fileName : String) : List Event → Prop
  | none : IsTurn fileName []
  | asked (offered : List ExportRecord) {styles : List Event}
      (h : ∀ e ∈ styles, e.isStyleQuestion = true) :
      IsTurn fileName (.askedExports (Console.exportPrompt fileName) offered :: styles)

section Turns

variable {fileName other : String} {asked later : List Event}

lemma exportPrompt_injective : Function.Injective Console.exportPrompt := by
  intro a b h
  unfold Console.exportPrompt at h
  exact (String.append_right_inj _).mp h

lemma IsTurn.asksFor_eq (h : IsTurn other asked) (hne : other ≠ fileName) :
    ∀ e ∈ asked, e.asksFor fileName = false := by
  have hstyle : ∀ e : Event, e.isStyleQuestion = true → e.asksFor fileName = false := by
    intro e he
    cases e with
    | askedStyle => rfl
    | noted => rfl
    | called => rfl
    | askedExports => cases he
  cases h with
  | none => simp
  | asked offered h =>
    intro e he
    rcases List.mem_cons.mp he with rfl | he
    · simpa [Event.asksFor] using fun hp => hne (exportPrompt_injective hp)
    · exact hstyle e (h e he)

lemma turnOf_append_of_forall (h : ∀ e ∈ asked, e.asksFor fileName = false) :
    turnOf fileName (asked ++ later) = turnOf fileName later := by
  rw [turnOf, List.dropWhile_append_of_pos (by simpa using h), turnOf]

lemma turnOf_eq_nil (h : ∀ e ∈ asked, e.asksFor fileName = false) : turnOf fileName asked = [] := by
  have hnone : turnOf fileName (asked ++ []) = turnOf fileName [] := turnOf_append_of_forall h
  rwa [List.append_nil] at hnone

/-- **The questions of a turn are found** among those that are asked up to the next turns. -/
lemma IsTurn.turnOf_append (h : IsTurn fileName asked)
    (hlater : ∀ e ∈ later, e.asksFor fileName = false)
    (hhead : ∀ e, later.head? = some e → e.isStyleQuestion = false) :
    turnOf fileName (asked ++ later) = asked := by
  cases h with
  | none => exact turnOf_eq_nil hlater
  | asked offered h =>
    have hasks : (Event.askedExports (Console.exportPrompt fileName) offered).asksFor fileName =
        true := by simp [Event.asksFor]
    rw [turnOf, List.cons_append, List.dropWhile_cons_of_neg (by simp [hasks])]
    dsimp only
    rw [List.takeWhile_append_of_pos h]
    cases later with
    | nil => simp
    | cons e rest => simp [hhead e rfl]

end Turns

/-! ## What is told -/

/-- What comes of a source file: the questions in its turn, and the text of its override if one is
written. -/
structure Turn where
  asked : List Event
  text : Option String

namespace Job

section Told

variable (job : Job) (answers : Answers)

/-- The name of the override of a source file. -/
def targetName (fileName : String) : String :=
  if job.task.isTypescript then fileName else untypedFileName fileName

/-- The name of the style file. -/
def styleName : String := job.task.name ++ job.settings.styleExtension

/-- How the styles of a source file are treated, if it carries any. -/
def styleAnswer (fileName : String) : Option StyleOption :=
  if job.task.type.carriesStyles fileName then (answers.style Console.stylePrompt).toOption else none

/-- What comes of a source file that is read, if its override can be written. -/
def turnWith (fileName : String) (source : SourceReading) (admitted : Bool) : Turn :=
  let offered := source.exports.named
  if offered.isEmpty then ⟨[], none⟩
  else
    { asked := .askedExports (Console.exportPrompt fileName) offered ::
        if job.task.type.carriesStyles fileName then [.askedStyle Console.stylePrompt] else []
      text :=
        match answers.exports (Console.exportPrompt fileName) offered with
        | .error _ => none
        | .ok answer =>
          let chosen := chosenAmong offered answer
          if chosen.isEmpty || !admitted then none
          else (synthesize (job.plan fileName source chosen (job.styleAnswer answers fileName))).toOption }

/-- **What comes of a source file**, as it is told from the disk before the run. -/
def turn (d : Disk) (fileName : String) : Turn :=
  if job.isSkipped fileName || d.exists (job.targetPath fileName) then ⟨[], none⟩
  else
    match readText d (job.sourcePath fileName) with
    | .error _ => ⟨[], none⟩
    | .ok code =>
      job.turnWith answers fileName (job.reading fileName code) (d.admits (job.targetPath fileName))

/-- **The outputs for source files lie in one directory under different names.** -/
structure Separate (files : List String) : Prop where
  isName : ∀ f ∈ files, Path.IsName (job.targetName f) ∧ job.targetName f ≠ ".."
  nodup : (files.map job.targetName).Nodup
  style : ∀ f ∈ files, job.task.type.carriesStyles f = true →
    Path.IsName job.styleName ∧ job.styleName ≠ ".." ∧ job.styleName ∉ files.map job.targetName

/-- **A run bears out what was told** of a source file: the questions in its turn are those, its
override is created if a text was told, and holds that text in the end. -/
structure Bears (fileName : String) (turn : Turn) (asked : List Event) (created : List Path)
    (after : Disk) : Prop where
  asked : turnOf fileName asked = turn.asked
  created : job.targetPath fileName ∈ created ↔ turn.text.isSome = true
  text : ∀ text, turn.text = some text →
    after.read (job.targetPath fileName) = .ok (Text.encode text)

end Told

section

variable {job : Job} {answers : Answers} {fileName : String} {start d d' : Disk}
  {created : List Path} {asked : List Event} {files : List String}

/-! ## The questions and outputs of a turn -/

lemma Styled.asked_eq {r : Option StyleOption × List Path}
    (h : Styled job answers fileName d r d' asked) :
    asked = if job.task.type.carriesStyles fileName then [.askedStyle Console.stylePrompt] else [] := by
  cases h with
  | none hnone => rw [if_neg (by simp [hnone])]
  | keep hyes => rw [if_pos hyes]
  | file hyes => rw [if_pos hyes]

lemma Styled.answer_eq {r : Option StyleOption × List Path}
    (h : Styled job answers fileName d r d' asked) : r.1 = job.styleAnswer answers fileName := by
  cases h with
  | none hnone => simp [styleAnswer, hnone]
  | keep hyes ha => simp [styleAnswer, hyes, ha, Except.toOption]
  | file hyes ha => simp [styleAnswer, hyes, ha, Except.toOption]

lemma Styled.created_subset {r : Option StyleOption × List Path}
    (h : Styled job answers fileName d r d' asked) :
    ∀ p ∈ r.2, job.task.type.carriesStyles fileName = true ∧ p = job.directory.child job.styleName := by
  cases h with
  | none => simp
  | keep => simp
  | @file _ option notes created hyes _ _ hc =>
    intro p hp
    obtain rfl := Option.mem_toList.mp hp
    unfold createStyle at hc
    dsimp only at hc
    split at hc
    · cases hc
    · split at hc
      · cases hc
      · cases hc
        exact ⟨hyes, rfl⟩
      · cases hc

lemma Overridden.isTurn {source : SourceReading}
    (h : Overridden job answers fileName source d created d' asked) : IsTurn fileName asked := by
  have hstyles : ∀ {d r d' asked}, Styled job answers fileName d r d' asked →
      ∀ e ∈ asked, e.isStyleQuestion = true := by
    intro d r d' asked hs e he
    rw [hs.asked_eq] at he
    split at he
    · rw [List.mem_singleton.mp he]
      rfl
    · cases he
  cases h with
  | nothing _ hs => exact .asked _ (hstyles hs)
  | chosen _ hs => exact .asked _ (hstyles hs)

/-- **The questions in the turn of a source file make a turn.** -/
lemma Handled.isTurn (h : Handled job answers fileName d created d' asked) :
    IsTurn fileName asked := by
  cases h with
  | skipped => exact .none
  | present => exact .none
  | bare => exact .none
  | overridden _ _ _ _ ho => exact ho.isTurn

/-- The first question of a run over source files is not the one for styles. -/
lemma HandledAll.head_asked (h : HandledAll job answers files d created d' asked) :
    ∀ e, asked.head? = some e → e.isStyleQuestion = false := by
  induction h with
  | nil => simp
  | @cons _ _ _ _ _ _ _ asked later h _ ih =>
    intro e he
    have hturn := h.isTurn
    cases hturn with
    | none => exact ih e he
    | asked offered h =>
      rw [List.cons_append, List.head?_cons, Option.some.injEq] at he
      rw [← he]
      rfl

lemma HandledAll.asksFor_eq (h : HandledAll job answers files d created d' asked)
    (hf : fileName ∉ files) : ∀ e ∈ asked, e.asksFor fileName = false := by
  induction h with
  | nil => simp
  | cons h _ ih =>
    rw [List.mem_cons, not_or] at hf
    intro e he
    rcases List.mem_append.mp he with he | he
    · exact h.isTurn.asksFor_eq (Ne.symm hf.1) e he
    · exact ih hf.2 e he

/-! ## What comes of a turn -/

lemma targetPath_eq (h : Path.IsName (job.targetName fileName)) : job.targetPath fileName =
    ⟨job.directory.root, job.directory.names ++ [job.targetName fileName]⟩ :=
  Path.child_of_isName h _

/-- Writing the style file touches no other name. -/
lemma reached_createStyle {name : String} (hstyle : Path.IsName job.styleName)
    (hup : job.styleName ≠ "..") (hne : job.styleName ≠ name) (option : StyleOption)
    (h : Disk.Reached job.directory name start d) : Disk.Reached job.directory name start
      (createStyle d job.settings job.directory job.task.name option).1 := by
  have hpath : stylePath job.settings job.directory job.task.name =
      ⟨job.directory.root, job.directory.names ++ [job.styleName]⟩ := Path.child_of_isName hstyle _
  unfold createStyle
  dsimp only
  split
  · exact h
  · rename_i content _
    have hw := h.writeNew hup hne content
    rw [← hpath] at hw
    split
    all_goals
      rename_i hr
      rwa [hr] at hw

section Bearing

variable (hs : job.Separate files) (hf : fileName ∈ files)
  (hhonest : start.Honest (job.targetPath fileName))
  (hd : Disk.Reached job.directory (job.targetName fileName) start d)

include hs hf hd

lemma Styled.reached {r : Option StyleOption × List Path}
    (h : Styled job answers fileName d r d' asked) :
    Disk.Reached job.directory (job.targetName fileName) start d' := by
  refine h.preserves (fun d d' => Disk.Reached job.directory (job.targetName fileName) start d →
    Disk.Reached job.directory (job.targetName fileName) start d') (fun d hd => hd)
    (fun hcarries d option => ?_) hd
  obtain ⟨hname, hup, hother⟩ := hs.style fileName hf hcarries
  exact reached_createStyle hname hup (fun he => hother (he ▸ List.mem_map_of_mem hf)) option

omit hd in
/-- The style file is no override. -/
lemma Styled.notMem_created {r : Option StyleOption × List Path}
    (h : Styled job answers fileName d r d' asked) : job.targetPath fileName ∉ r.2 := by
  intro hmem
  obtain ⟨hcarries, hpath⟩ := h.created_subset _ hmem
  obtain ⟨hname, -, hother⟩ := hs.style fileName hf hcarries
  rw [targetPath_eq (hs.isName fileName hf).1, Path.child_of_isName hname, Path.mk.injEq,
    List.append_cancel_left_eq, List.singleton_inj] at hpath
  exact hother (hpath.2 ▸ List.mem_map_of_mem hf)

include hhonest in
/-- **A source file whose exports are read comes to what was told.** -/
lemma Overridden.bears {source : SourceReading}
    (h : Overridden job answers fileName source d created d' asked)
    (hn : source.exports.named ≠ []) (hno : start.exists (job.targetPath fileName) = false)
    {turn : Turn} (hturn : turn = job.turnWith answers fileName source
      (start.admits (job.targetPath fileName))) :
    asked = turn.asked ∧ (job.targetPath fileName ∈ created ↔ turn.text.isSome = true) ∧
      ∀ text, turn.text = some text →
        d'.read (job.targetPath fileName) = .ok (Text.encode text) := by
  have hnamed : source.exports.named.isEmpty = false := by simpa using hn
  obtain ⟨hname, hup⟩ := hs.isName fileName hf
  have hpath := targetPath_eq hname
  unfold turnWith at hturn
  dsimp only at hturn
  rw [hnamed, if_neg (by simp)] at hturn
  cases h with
  | nothing ha hstyled hc =>
    rw [ha] at hturn
    dsimp only at hturn
    rw [hc, ← hstyled.asked_eq, List.isEmpty_nil, Bool.true_or, if_pos rfl] at hturn
    subst hturn
    exact ⟨rfl, by simpa using hstyled.notMem_created hs hf, by simp⟩
  | @chosen _ between answer _ styles written _ ha hstyled hc hw =>
    have hchosen : (chosenAmong source.exports.named answer).isEmpty = false := by simpa using hc
    have hbetween := hstyled.reached hs hf hd
    rw [ha] at hturn
    dsimp only at hturn
    rw [hchosen, ← hstyled.asked_eq, ← hstyled.answer_eq, Bool.false_or] at hturn
    have hstyles := hstyled.notMem_created hs hf
    cases hw with
    | failed herror =>
      rw [herror] at hturn
      subst hturn
      simp [Except.toOption, hstyles]
    | @tried _ content isNew hok hw =>
      rw [hpath] at hhonest hno hw hturn
      obtain rfl := hbetween.isNew_eq hup hhonest hno hw
      rw [hok] at hturn
      cases hadmits : start.admits ⟨job.directory.root,
        job.directory.names ++ [job.targetName fileName]⟩ with
      | false =>
        rw [hadmits] at hturn
        subst hturn
        simp [hstyles]
      | true =>
        rw [hadmits] at hturn hw
        subst hturn
        refine ⟨rfl, by simp [Except.toOption], fun text htext => ?_⟩
        obtain rfl : content = text := by simpa [Except.toOption] using htext
        rw [hpath]
        exact Disk.read_of_writeNew hw

include hhonest in
/-- **A source file comes to what was told.** -/
lemma Handled.bears (h : Handled job answers fileName d created d' asked)
    (hsource : start.isFile (job.sourcePath fileName) = true) :
    asked = (job.turn answers start fileName).asked ∧
      (job.targetPath fileName ∈ created ↔ (job.turn answers start fileName).text.isSome = true) ∧
      ∀ text, (job.turn answers start fileName).text = some text →
        d'.read (job.targetPath fileName) = .ok (Text.encode text) := by
  obtain ⟨hname, hup⟩ := hs.isName fileName hf
  have hexists : d.exists (job.targetPath fileName) = start.exists (job.targetPath fileName) := by
    rw [targetPath_eq hname] at hhonest ⊢
    exact hd.exists_eq hup hhonest
  have hread : readText d (job.sourcePath fileName) = readText start (job.sourcePath fileName) := by
    unfold readText
    obtain ⟨content, hcontent⟩ := Disk.exists_read_of_isFile hsource
    rw [hcontent, hd.extension.read_eq_ok hcontent]
  have hnone : ∀ {turn : Turn}, turn = ⟨[], none⟩ → ([] : List Event) = turn.asked ∧
      (job.targetPath fileName ∈ ([] : List Path) ↔ turn.text.isSome = true) ∧
      ∀ text, turn.text = some text →
        d.read (job.targetPath fileName) = .ok (Text.encode text) := by
    rintro turn rfl
    simp
  unfold turn
  cases h with
  | skipped hskip => exact hnone (by simp [hskip])
  | present hskip hp =>
    rw [hexists] at hp
    exact hnone (by simp [hp])
  | bare hskip hp hr hn =>
    rw [hexists] at hp
    rw [hread] at hr
    exact hnone (by simp [hskip, hp, hr, turnWith, hn])
  | overridden hskip hp hr hn ho =>
    rw [hexists] at hp
    rw [hread] at hr
    exact ho.bears hs hf hhonest hd hn hp (by simp [hskip, hp, hr])

end Bearing

/-! ## What comes of all turns -/

lemma Handled.created_subset (h : Handled job answers fileName d created d' asked) :
    ∀ p ∈ created, p = job.targetPath fileName ∨
      job.task.type.carriesStyles fileName = true ∧ p = job.directory.child job.styleName := by
  cases h with
  | skipped => simp
  | present => simp
  | bare => simp
  | overridden _ _ _ _ ho =>
    intro p hp
    cases ho with
    | nothing _ hs => exact Or.inr (hs.created_subset p hp)
    | chosen _ hs _ hw =>
      rcases List.mem_append.mp hp with hp | hp
      · exact Or.inr (hs.created_subset p hp)
      · cases hw with
        | failed => cases hp
        | tried =>
          split at hp
          · exact Or.inl (List.mem_singleton.mp hp)
          · cases hp

/-- The outputs for source files lie at proper paths. -/
lemma HandledAll.proper_created (h : HandledAll job answers files d created d' asked)
    (hp : job.directory.Proper) : ∀ p ∈ created, p.Proper := by
  induction h with
  | nil => simp
  | cons h _ ih =>
    intro p hmem
    rcases List.mem_append.mp hmem with hmem | hmem
    · rcases h.created_subset p hmem with rfl | ⟨-, rfl⟩
      · exact hp.child _
      · exact hp.child _
    · exact ih p hmem

namespace Separate

variable {other : String}

lemma sublist {some : List String} (h : job.Separate files) (hsub : some.Sublist files) :
    job.Separate some where
  isName f hf := h.isName f (hsub.subset hf)
  nodup := h.nodup.sublist (hsub.map _)
  style f hf hcarries :=
    have ⟨hname, hup, hother⟩ := h.style f (hsub.subset hf) hcarries
    ⟨hname, hup, fun hmem => hother ((hsub.map _).subset hmem)⟩

/-- The outputs for one source file are not the override of another. -/
lemma notMem_created (hs : job.Separate files) (hf : fileName ∈ files) (hother : other ∈ files)
    (hne : other ≠ fileName) (h : Handled job answers other d created d' asked) :
    job.targetPath fileName ∉ created := by
  intro hmem
  have hpath := targetPath_eq (hs.isName fileName hf).1
  rcases h.created_subset _ hmem with heq | ⟨hcarries, heq⟩
  · rw [hpath, targetPath_eq (hs.isName other hother).1, Path.mk.injEq,
      List.append_cancel_left_eq, List.singleton_inj] at heq
    exact hne (List.inj_on_of_nodup_map hs.nodup hother hf heq.2.symm)
  · obtain ⟨hname, -, hstyle⟩ := hs.style other hother hcarries
    rw [hpath, Path.child_of_isName hname, Path.mk.injEq, List.append_cancel_left_eq,
      List.singleton_inj] at heq
    exact hstyle (heq.2 ▸ List.mem_map_of_mem hf)

lemma notMem_createdAll (hs : job.Separate (fileName :: files))
    (h : HandledAll job answers files d created d' asked) : job.targetPath fileName ∉ created := by
  induction h with
  | nil => simp
  | @cons other rest _ _ _ _ _ _ _ h _ ih =>
    have hne : other ≠ fileName := by
      rintro rfl
      simpa using (List.nodup_cons.mp hs.nodup).1
    have hsub : job.Separate (fileName :: rest) :=
      hs.sublist ((List.sublist_cons_self other rest).cons_cons fileName)
    rw [List.mem_append, not_or]
    exact ⟨hs.notMem_created (by simp) (by simp) hne h, ih hsub⟩

end Separate

/-- Handling a source file leaves the name of the override of another as it was. -/
lemma Handled.reached {other : String} (h : Handled job answers other d created d' asked)
    (hs : job.Separate files) (hf : fileName ∈ files) (hother : other ∈ files)
    (hne : other ≠ fileName) (hd : Disk.Reached job.directory (job.targetName fileName) start d) :
    Disk.Reached job.directory (job.targetName fileName) start d' := by
  refine h.preserves (fun d d' => Disk.Reached job.directory (job.targetName fileName) start d →
    Disk.Reached job.directory (job.targetName fileName) start d') (fun _ hd => hd)
    (fun h h' hd => h' (h hd)) (fun hcarries d option hd => ?_) (fun d content hd => ?_) hd
  · obtain ⟨hname, hup, hstyle⟩ := hs.style other hother hcarries
    exact reached_createStyle hname hup (fun he => hstyle (he ▸ List.mem_map_of_mem hf)) option hd
  · obtain ⟨hname, hup⟩ := hs.isName other hother
    rw [targetPath_eq hname]
    exact hd.writeNew hup (fun he => hne (List.inj_on_of_nodup_map hs.nodup hother hf he)) content

lemma HandledAll.bears_of_reached (h : HandledAll job answers files d created d' asked)
    (hs : job.Separate files) (hf : fileName ∈ files)
    (hd : Disk.Reached job.directory (job.targetName fileName) start d)
    (hhonest : start.Honest (job.targetPath fileName))
    (hsource : start.isFile (job.sourcePath fileName) = true) :
    job.Bears fileName (job.turn answers start fileName) asked created d' := by
  induction h with
  | nil => cases hf
  | @cons other rest d d₁ d' created more asked later h hrest ih =>
    by_cases hother : other = fileName
    · subst hother
      obtain ⟨hasked, hcreated, htext⟩ := h.bears hs hf hhonest hd hsource
      have hnot : other ∉ rest := fun hmem =>
        (List.nodup_cons.mp hs.nodup).1 (List.mem_map_of_mem hmem)
      refine ⟨?_, ?_, fun text ht => hrest.extension.read_eq_ok (htext text ht)⟩
      · rw [← hasked]
        exact h.isTurn.turnOf_append (hrest.asksFor_eq hnot) hrest.head_asked
      · rw [List.mem_append, or_iff_left (hs.notMem_createdAll hrest), hcreated]
    · have hmem : fileName ∈ rest := (List.mem_cons.mp hf).resolve_left (Ne.symm hother)
      have hreached := h.reached hs hf List.mem_cons_self hother hd
      obtain ⟨hasked, hcreated, htext⟩ := ih (hs.sublist (List.sublist_cons_self _ _)) hmem hreached
      refine ⟨?_, ?_, htext⟩
      · rw [turnOf_append_of_forall (h.isTurn.asksFor_eq hother), hasked]
      · rw [List.mem_append, or_iff_right (hs.notMem_created hf List.mem_cons_self hother h),
          hcreated]

/-- **A run over source files bears out what is told of each.**

**Proof sketch.** Induction on the files. The turns of the others leave the name of the override as
it was (`ThemeOverride.Disk.Reached`), so that nothing that is asked about it depends on them. -/
theorem HandledAll.bears (h : HandledAll job answers files d created d' asked)
    (hs : job.Separate files) (hf : fileName ∈ files) (hhonest : d.Honest (job.targetPath fileName))
    (hsource : d.isFile (job.sourcePath fileName) = true) :
    job.Bears fileName (job.turn answers d fileName) asked created d' :=
  h.bears_of_reached hs hf .start hhonest hsource

end

end Job

end ThemeOverride
