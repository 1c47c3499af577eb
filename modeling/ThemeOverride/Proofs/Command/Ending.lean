import ThemeOverride.Proofs.Console.Dialogue
import ThemeOverride.Proofs.Output.Outcome
import ThemeOverride.Proofs.Run.Contents
import ThemeOverride.Proofs.Settings.Faults

/-!
# How the command ends

The command that extends a resource ends as it is documented, with the created files, with a line that
tells an error, or at the end of the typed lines; or else what is given to it holds something that it
is not prepared for. All that this can be is listed.

## Main definitions

* `ThemeOverride.CommandReport.IsDocumented` — the command has ended as it is documented.
* `ThemeOverride.outcome` — what comes of the command before anything is printed about it.
* `ThemeOverride.CommandBlame` — what is given to the command is the cause of a failure.

## Main results

* `ThemeOverride.extend_error` — what a run at the console can fail on.
* `ThemeOverride.runCommand_ends` — how the command ends.
* `ThemeOverride.runCommand_broken` — settings that are no YAML end it without a word.
-/

namespace ThemeOverride

open Console

/-! ## Answers at the console -/

section

variable {count : Nat} {printed : String} {lines : List String} {fault : PromptFault}

/-- A line is typed in which a number cannot be read: it has a digit that is not decimal, or too many
digits. -/
def HasUnreadableNumber (line : String) : Prop :=
  ∃ token ∈ selectionTokens line.toList, token.all Text.isDigit = true ∧ numberOf? token = none

lemma hasUnreadableNumber_of_parseSelection {count : Int} {line : String} {fault : NumberFault}
    (h : parseSelection line count = .error fault) : HasUnreadableNumber line := by
  have hne := selectionTokens_ne_nil line.toList
  obtain ⟨token, htoken, hdigits, hnot⟩ := ((selectTokens_eq_error_iff hne).mp h).exists_mem
  exact ⟨token, htoken, hdigits, (numberOf?_eq_none_iff (hne token htoken) hdigits).mpr hnot⟩

lemma readSelection_error (h : (readSelection count printed lines).1 = .error fault) :
    fault = .endOfInput ∨
      ∃ line ∈ lines, HasUnreadableNumber line ∧ ∃ number, fault = .number number := by
  induction lines generalizing printed with
  | nil =>
    cases h
    exact .inl rfl
  | cons line rest ih =>
    rw [readSelection] at h
    split at h
    · rename_i number hparse
      cases h
      exact .inr ⟨line, List.mem_cons_self, hasUnreadableNumber_of_parseSelection hparse, number, rfl⟩
    · cases h
    · rcases ih h with hend | ⟨other, hmem, hunread⟩
      · exact .inl hend
      · exact .inr ⟨other, List.mem_cons_of_mem _ hmem, hunread⟩

lemma suffix_readSelection : (readSelection count printed lines).2.lines <:+ lines := by
  induction lines generalizing printed with
  | nil => exact List.suffix_rfl
  | cons line rest ih =>
    rw [readSelection]
    split
    · exact List.suffix_cons line rest
    · exact List.suffix_cons line rest
    · exact ih.trans (List.suffix_cons line rest)

lemma readNumber_error (h : (readNumber count printed lines).1 = .error fault) :
    fault = .endOfInput := readNumber_answeredBy.eq_endOfInput h

lemma suffix_readNumber : (readNumber count printed lines).2.lines <:+ lines :=
  readNumber_answeredBy.suffix

end

section

variable {session : Session} {prompt : String} {offered : List ExportRecord} {f : Failure}

/-- **A question for exports is not answered** at the end of the typed lines, for a line in which a
number cannot be read, or because a text in the question holds what begins a closing tag. -/
lemma consoleOperator_exports_error
    (h : (consoleOperator.exports prompt offered session).1 = .error f) :
    f = .prompt .endOfInput ∨
      (∃ line ∈ session.lines, HasUnreadableNumber line ∧ ∃ fault, f = .prompt (.number fault)) ∨
      ∃ text fault, (text = prompt ∨ text ∈ offered.map (·.name)) ∧ HoldsClosing text ∧
        f = .prompt (.markup fault) := by
  have hanswer : ∃ fault, f = .prompt fault ∧
      (multiSelect prompt (offered.map (·.name)) session).1 = .error fault := by
    unfold consoleOperator at h
    dsimp only at h
    split at h
    · cases h
    · rename_i fault _ hselect
      cases h
      exact ⟨fault, rfl, by rw [hselect]⟩
  obtain ⟨fault, rfl, hselect⟩ := hanswer
  unfold multiSelect at hselect
  split at hselect
  · cases hselect
  · split at hselect
    · rename_i markup hprint
      cases hselect
      obtain ⟨line, hline, hfault⟩ := exists_of_printLines hprint
      refine .inr (.inr ?_)
      rcases holdsClosing_of_questionLines hline hfault with hholds | ⟨text, hmem, hholds⟩
      · exact ⟨prompt, markup, .inl rfl, hholds, rfl⟩
      · exact ⟨text, markup, .inr hmem, hholds, rfl⟩
    · rename_i printed hprint
      have hlines : printed.lines = session.lines := by
        rw [← lines_printLines session, hprint]
      rcases readSelection_error hselect with rfl | ⟨line, hline, hnumber, number, rfl⟩
      · exact .inl rfl
      · exact .inr (.inl ⟨line, hlines ▸ hline, hnumber, number, rfl⟩)

lemma suffix_exports (prompt : String) (offered : List ExportRecord) (session : Session) :
    (consoleOperator.exports prompt offered session).2.lines <:+ session.lines := by
  have hselect : (multiSelect prompt (offered.map (·.name)) session).2.lines <:+ session.lines := by
    unfold multiSelect
    split
    · exact List.suffix_rfl
    · have hlines := lines_printLines session (questionLines prompt (offered.map (·.name)))
      split
      · rename_i hprint
        rw [hprint] at hlines
        exact hlines ▸ List.suffix_rfl
      · rename_i hprint
        rw [hprint] at hlines
        exact hlines ▸ suffix_readSelection
  unfold consoleOperator
  dsimp only
  split <;> rename_i hcases <;> rw [hcases] at hselect <;> exact hselect

/-- A question about styles is not answered at the end of the typed lines: what it asks can be
printed. -/
lemma consoleOperator_style_error (h : (consoleOperator.style stylePrompt session).1 = .error f) :
    f = .prompt .endOfInput := by
  have hanswer : ∃ fault, f = .prompt fault ∧
      (select stylePrompt (StyleOption.all.map (·.description)) session).1 = .error fault := by
    unfold consoleOperator at h
    dsimp only at h
    split at h
    · cases h
    · rename_i fault _ hselect
      cases h
      exact ⟨fault, rfl, by rw [hselect]⟩
  obtain ⟨fault, rfl, hselect⟩ := hanswer
  unfold select at hselect
  split at hselect
  · rename_i hprint
    obtain ⟨line, hline, hfault⟩ := exists_of_printLines hprint
    rcases holdsClosing_of_questionLines hline hfault with h | ⟨text, hmem, h⟩
    · exact absurd h.slash_mem (by decide)
    · obtain ⟨option, -, rfl⟩ := List.mem_map.mp hmem
      cases option <;> exact absurd h.slash_mem (by decide)
  · exact congrArg _ (readNumber_error hselect)

lemma suffix_style (prompt : String) (session : Session) :
    (consoleOperator.style prompt session).2.lines <:+ session.lines := by
  have hselect : (select prompt (StyleOption.all.map (·.description)) session).2.lines <:+
      session.lines := by
    unfold select
    have hlines := lines_printLines session
      (questionLines prompt (StyleOption.all.map (·.description)))
    split
    · rename_i hprint
      rw [hprint] at hlines
      exact hlines ▸ List.suffix_rfl
    · rename_i hprint
      rw [hprint] at hlines
      exact hlines ▸ suffix_readNumber
  unfold consoleOperator
  dsimp only
  split <;> rename_i hcases <;> rw [hcases] at hselect <;> exact hselect

/-- What happens is no question, or one that is answered to the typed lines of a session. -/
def Moment.IsAnswered (session : Session) : Moment → Prop
  | .exports prompt offered answer => answer = (consoleOperator.exports prompt offered session).1
  | .style prompt answer => answer = (consoleOperator.style prompt session).1
  | .wrote _ _ => True

/-- **The answers of a transcript** are given to the typed lines, or to the last of them. -/
lemma exists_session_of_gives {transcript : List Moment} {o o' : Session}
    (h : consoleOperator.Gives transcript o o') {m : Moment} (hm : m ∈ transcript) :
    ∃ session : Session, session.lines <:+ o.lines ∧ m.IsAnswered session := by
  induction h with
  | nil => cases hm
  | @exports o o₁ o' prompt offered answer rest h _ ih =>
    rcases List.mem_cons.mp hm with rfl | hm
    · exact ⟨o, List.suffix_rfl, (congrArg Prod.fst h).symm⟩
    · obtain ⟨session, hsuffix, hrest⟩ := ih hm
      have hlater := suffix_exports prompt offered o
      rw [h] at hlater
      exact ⟨session, hsuffix.trans hlater, hrest⟩
  | @style o o₁ o' prompt answer rest h _ ih =>
    rcases List.mem_cons.mp hm with rfl | hm
    · exact ⟨o, List.suffix_rfl, (congrArg Prod.fst h).symm⟩
    · obtain ⟨session, hsuffix, hrest⟩ := ih hm
      have hlater := suffix_style prompt o
      rw [h] at hlater
      exact ⟨session, hsuffix.trans hlater, hrest⟩
  | wrote _ ih =>
    rcases List.mem_cons.mp hm with rfl | hm
    · exact ⟨_, List.suffix_rfl, trivial⟩
    · exact ih hm

end

/-! ## What stops a run -/

section

variable {σ α β : Type} {f : Failure}

lemma Run.bind_error_cases {r : Run σ β} {next : β → Run σ α} {s s' : Scene σ}
    (h : (r >>= next) s = (.error f, s')) :
    r s = (.error f, s') ∨ ∃ b between, r s = (.ok b, between) ∧ next b between = (.error f, s') := by
  change Run.bind r next s = (.error f, s') at h
  unfold Run.bind at h
  cases hr : r s with
  | mk result between =>
    rw [hr] at h
    cases result with
    | error g =>
      cases h
      exact .inl rfl
    | ok b => exact .inr ⟨b, between, rfl, h⟩

/-- A result that may be a failure changes nothing. -/
lemma Run.ofExcept_bind_error_cases {e : Except Failure β} {next : β → Run σ α} {s s' : Scene σ}
    (h : (Run.ofExcept e >>= next) s = (.error f, s')) :
    e = .error f ∨ ∃ b, e = .ok b ∧ next b s = (.error f, s') := by
  rcases Run.bind_error_cases h with h | ⟨b, between, he, h⟩
  · exact .inl (congrArg Prod.fst h)
  · cases he
    exact .inr ⟨b, rfl, h⟩

lemma writeNew_error {d : Disk} {p : Path} {text : String} (h : (writeNew d p text).2 = .error f) :
    f.isPrinted = true := by
  obtain ⟨fault, -, rfl⟩ := writeNew_eq_error h
  rfl

namespace Job

variable {job : Job} {files : List String} {fileName : String} {d d' : Disk}
  {transcript : List Moment}

/-- **What stops the source files** with a failure: it is printed, or what is read for a source file, or
the answer to a question. -/
inductive StopsOn (job : Job) (d : Disk) (transcript : List Moment) (fileName : String)
    (f : Failure) : Prop
  | printed (h : f.isPrinted = true)
  | unread (h : readText d (job.sourcePath fileName) = .error f)
  | exports {prompt : String} {offered : List ExportRecord}
      (h : .exports prompt offered (.error f) ∈ transcript)
  | style (h : .style stylePrompt (.error f) ∈ transcript)

lemma ToldStyle.stopsOn {result : Except Failure (Option StyleOption × List Path)}
    (h : ToldStyle job fileName d result d' transcript) (hr : result = .error f) :
    f.isPrinted = true ∨ .style stylePrompt (.error f) ∈ transcript := by
  cases h with
  | none | keep => cases hr
  | unanswered =>
    cases hr
    exact .inr List.mem_cons_self
  | @file _ _ _ _ written _ _ hw =>
    cases written with
    | ok isNew => cases hr
    | error g =>
      cases hr
      exact .inl (writeNew_error (congrArg Prod.snd hw))

lemma ToldWrite.isPrinted {plan : OverridePlan} {result : Except Failure (List Path)}
    (h : ToldWrite job fileName plan d result d' transcript) (hr : result = .error f) :
    f.isPrinted = true := by
  cases h with
  | failed => cases hr
  | @tried _ _ _ written _ hw =>
    cases written with
    | ok isNew => cases hr
    | error g =>
      cases hr
      exact writeNew_error (congrArg Prod.snd hw)

lemma Told.stopsOn {result : Except Failure (List Path)}
    (h : Told job fileName d result d' transcript) (hr : result = .error f) :
    job.StopsOn d transcript fileName f := by
  cases h with
  | skipped | present | bare => cases hr
  | unread _ _ hread =>
    cases hr
    exact .unread hread
  | overridden _ _ _ _ ho =>
    cases ho with
    | unanswered =>
      cases hr
      exact .exports List.mem_cons_self
    | stopped hs =>
      cases hr
      exact (hs.stopsOn rfl).elim .printed fun hm => .style (List.mem_cons_of_mem _ hm)
    | nothing => cases hr
    | @chosen _ _ _ _ _ _ _ _ result _ _ hw =>
      cases result with
      | ok more => cases hr
      | error g =>
        cases hr
        exact .printed (hw.isPrinted rfl)

/-- **What stops source files one after the other** is what stops one of them, which is read as it is at
the beginning. -/
theorem ToldAll.stopsOn {result : Except Failure (List Path)}
    (h : ToldAll job files d result d' transcript) (hr : result = .error f)
    (hsources : ∀ fileName ∈ files, d.exists (job.sourcePath fileName) = true) :
    ∃ fileName ∈ files, job.StopsOn d transcript fileName f := by
  induction h with
  | nil => cases hr
  | stopped h =>
    cases hr
    exact ⟨_, List.mem_cons_self, h.stopsOn rfl⟩
  | @cons _ _ _ _ _ _ result _ _ h _ ih =>
    cases result with
    | ok more => cases hr
    | error g =>
      cases hr
      have he := h.records.grows.keeps
      obtain ⟨fileName, hmem, hstops⟩ := ih rfl fun fileName hmem =>
        he.exists_mono (hsources fileName (List.mem_cons_of_mem _ hmem))
      refine ⟨fileName, List.mem_cons_of_mem _ hmem, ?_⟩
      cases hstops with
      | printed h => exact .printed h
      | unread h =>
        rw [he.readText_eq (hsources fileName (List.mem_cons_of_mem _ hmem))] at h
        exact .unread h
      | exports h => exact .exports (List.mem_append_right _ h)
      | style h => exact .style (List.mem_append_right _ h)

end Job

variable {settings : Settings} {task : Task}

/-- **What can stop the search for what there is to do**. -/
lemma prepare_error {target : Module} {s s' : Scene σ}
    (h : prepare settings task target s = (.error f, s')) :
    f.IsExplained s.disk settings ∨ f = .notBelow ∧ (Path.ofString task.name).isAbsolute = true := by
  rw [prepare_looks s, Prod.mk.injEq] at h
  have h := h.1
  unfold findJob at h
  dsimp only at h
  split at h
  · cases h
  · rename_i hlocate
    cases h
    exact .inl (locate_error hlocate)
  split at h
  · rename_i hsource
    cases h
    exact .inl (moduleAt_error hsource)
  rename_i source hsource
  split at h
  · rename_i hcan
    cases h
    exact .inl (canExtend_error hcan)
  · cases h
  rcases Except.bind_eq_error.mp h with h | ⟨files, -, h⟩
  · exact .inl (fileList_error h)
  · exact targetDirectory_error hsource (Except.map_eq_error.mp h)

/-- **What stops a run**: it is found while looking for what there is to do, or it stops the source
files. -/
lemma extend_error_cases (op : Operator σ) (tidier : Tidier) {s s' : Scene σ}
    (h : extend op tidier settings task s = (.error f, s')) :
    (f.IsExplained s.disk settings ∨
      f = .notBelow ∧ (Path.ofString task.name).isAbsolute = true) ∨
    ∃ (target : Module) (job : Job) (files : List String) (fileName : String)
      (transcript : List Moment), moduleAt s.disk settings task.target = .ok target ∧
      Prepared settings task target s.disk (some (job, files)) ∧ fileName ∈ files ∧
      job.StopsOn s.disk transcript fileName f ∧ op.Gives transcript s.operator s'.operator ∧
      Run.questions s' = Run.questions s ++ questionsIn transcript := by
  rw [extend_eq] at h
  rcases Run.bind_error_cases h with h | ⟨found, between, -, h⟩
  swap
  · cases found with
    | none => cases h
    | some found => cases h
  unfold overrideFiles at h
  rcases Run.bind_error_cases h with h | ⟨d, _, hd, h⟩
  · cases h
  cases hd
  rcases Run.ofExcept_bind_error_cases h with h | ⟨target, htarget, h⟩
  · exact .inl (.inl (moduleAt_error h))
  rcases Run.bind_error_cases h with h | ⟨found, between, hprepare, h⟩
  · exact .inl (prepare_error h)
  split at h
  · cases h
  rename_i job files
  obtain ⟨hprepared, ns, rfl⟩ := Prepared.of_run hprepare
  rcases Run.bind_error_cases h with h | ⟨_, s₁, hnote, h⟩
  · cases h
  cases hnote
  rcases Run.bind_error_cases h with h | ⟨paths, last, -, h⟩
  swap
  · cases h
  obtain ⟨transcript, htold, hgives, hasked⟩ := job.handleAll_tells op files _
  rw [h] at htold hgives hasked
  rw [Run.questions_noted, Run.questions_noted] at hasked
  obtain ⟨fileName, hmem, hstops⟩ :=
    htold.stopsOn rfl fun fileName hf => hprepared.exists_sourcePath hf
  exact .inr ⟨target, job, files, fileName, transcript, htarget, hprepared, hmem, hstops, hgives,
    hasked⟩

end

/-! ## The whole command -/

/-- **The command has ended as it is documented**: with the created files, with a line that tells an
error, or where a question met the end of the typed lines. -/
inductive CommandReport.IsDocumented (r : CommandReport) : Prop
  | done (hcode : r.exitCode = 0) (hescaped : r.escaped = none) (hanswered : r.isUnanswered = false)
  | told {before message : String} (hcode : r.exitCode = 1) (hescaped : r.escaped = none)
      (hanswered : r.isUnanswered = false)
      (hprinted : r.printed = before ++ ("Error: " ++ message ++ "\n"))
  | aborted (hcode : r.exitCode = 1) (hescaped : r.escaped = none) (hanswered : r.isUnanswered = true)

/-- What arguments ask for. -/
def ExtendArguments.task (args : ExtendArguments) : Task where
  type := args.type
  name := args.name
  target := Path.ofString args.target
  source := args.source.map Path.ofString
  isTypescript := args.isTypescript

section

variable (d : Disk) (env : Environment) (tidier : Tidier) (args : ExtendArguments) (session : Session)

/-- What comes of the command before anything is printed about it: the created files or a failure, and
the scene that is left. -/
def outcome : Except Failure (List String) × Scene Session :=
  match loadSettings d env args.config with
  | .error f => (.error f, ⟨d, session, []⟩)
  | .ok settings => extend consoleOperator tidier settings args.task ⟨d, session, []⟩

/-- **What is given to the command is the cause of a failure**: the settings; links or manifests on the
disk; the name of the resource, as an absolute path; a source file that holds no text; a typed line in
which a number cannot be read; or what begins a closing tag, in a question, in the message of a failure
or in the path of a created file. -/
inductive CommandBlame : Failure → Prop
  | settings {f : Failure} (h : SettingsBlame d env args.config f) : CommandBlame f
  | disk {settings : Settings} {f : Failure} (hs : loadSettings d env args.config = .ok settings)
      (h : d.Blames settings f) : CommandBlame f
  | absolute (h : (Path.ofString args.name).isAbsolute = true) : CommandBlame .notBelow
  | source {settings : Settings} {target : Module} {job : Job} {files : List String}
      {fileName : String} (hs : loadSettings d env args.config = .ok settings)
      (ht : moduleAt d settings args.task.target = .ok target)
      (hp : Prepared settings args.task target d (some (job, files))) (hf : fileName ∈ files)
      (h : d.HoldsNoText (job.sourcePath fileName)) : CommandBlame .notText
  | number {line : String} {fault : NumberFault} (hline : line ∈ session.lines)
      (h : HasUnreadableNumber line) : CommandBlame (.prompt (.number fault))
  | question {prompt text : String} {offered : List ExportRecord} {fault : MarkupFault}
      (hasked : .askedExports prompt offered ∈ (outcome d env tidier args session).2.events)
      (htext : text = prompt ∨ text ∈ offered.map (·.name)) (h : HoldsClosing text) :
      CommandBlame (.prompt (.markup fault))
  | message {f : Failure} {fault : MarkupFault} (hf : (outcome d env tidier args session).1 = .error f)
      (hprinted : f.isPrinted = true) (h : HoldsClosing f.message) :
      CommandBlame (.prompt (.markup fault))
  | created {paths : List String} {path : String} {fault : MarkupFault}
      (hc : (outcome d env tidier args session).1 = .ok paths) (hpath : path ∈ paths)
      (h : HoldsClosing path) : CommandBlame (.prompt (.markup fault))

variable {d env tidier args session}

/-- **What a failure of the command comes from**, if it is not printed and no question met the end of the
typed lines. -/
lemma outcome_error {f : Failure} (h : (outcome d env tidier args session).1 = .error f) :
    f.isPrinted = true ∨ f = .prompt .endOfInput ∨ CommandBlame d env tidier args session f := by
  have hevents : ∀ e, e ∈ Run.questions (outcome d env tidier args session).2 →
      e ∈ (outcome d env tidier args session).2.events := fun e he => (List.mem_filter.mp he).1
  generalize hout : outcome d env tidier args session = out at h hevents
  have hquestion : ∀ prompt text offered fault, .askedExports prompt offered ∈ out.2.events →
      (text = prompt ∨ text ∈ offered.map (·.name)) → HoldsClosing text →
      CommandBlame d env tidier args session (.prompt (.markup fault)) :=
    fun prompt text offered fault hasked htext hholds => .question (hout ▸ hasked) htext hholds
  unfold outcome at hout
  split at hout
  · rename_i g hsettings
    subst hout
    cases h
    exact (loadSettings_error hsettings).imp_right fun hblame => .inr (.settings hblame)
  · rename_i settings hsettings
    rcases extend_error_cases consoleOperator tidier (hout.trans (Prod.ext h rfl)) with
      (hexplained | ⟨rfl, habsolute⟩) |
      ⟨target, job, files, fileName, transcript, htarget, hprepared, hmem, hstops, hgives, hasked⟩
    · exact hexplained.imp_right fun hblame => .inr (.disk hsettings hblame)
    · exact .inr (.inr (.absolute habsolute))
    · cases hstops with
      | printed h => exact .inl h
      | unread h =>
        refine (readText_error h).imp_right ?_
        rintro ⟨rfl, hno⟩
        exact .inr (.source hsettings htarget hprepared hmem hno)
      | @exports prompt offered hm =>
        obtain ⟨now, hsuffix, hanswer⟩ := exists_session_of_gives hgives hm
        rcases consoleOperator_exports_error hanswer.symm with
          rfl | ⟨line, hline, hnumber, fault, rfl⟩ | ⟨text, fault, htext, hholds, rfl⟩
        · exact .inr (.inl rfl)
        · exact .inr (.inr (.number (hsuffix.subset hline) hnumber))
        · refine .inr (.inr (hquestion prompt text offered fault (hevents _ ?_) htext hholds))
          rw [hasked]
          exact List.mem_append_right _ (List.mem_filterMap.mpr ⟨_, hm, rfl⟩)
      | style hm =>
        obtain ⟨now, -, hanswer⟩ := exists_session_of_gives hgives hm
        exact .inr (.inl (consoleOperator_style_error hanswer.symm))

/-- What is printed at the end of the command, in terms of what came of it. -/
lemma runExtend_eq : runExtend d env tidier args session =
    let report : CommandReport :=
      { disk := (outcome d env tidier args session).2.disk
        exitCode := 0
        level := if args.isVerbose then Level.debug else Level.info
        events := (outcome d env tidier args session).2.events }
    match (outcome d env tidier args session).1 with
    | .error f => finishFailed report (outcome d env tidier args session).2.operator f
    | .ok created => finish report (outcome d env tidier args session).2.operator
        (createdLines created) 0 := by
  unfold runExtend outcome
  cases loadSettings d env args.config with
  | error f => rfl
  | ok settings => rfl

/-- Lines are printed, or one of them is at fault. -/
lemma finish_cases (r : CommandReport) (session : Session) (lines : List String) (code : Nat) :
    (∃ printed, finish r session lines code = { r with printed := printed, exitCode := code }) ∨
    ∃ line ∈ lines, ∃ fault, plainText line = .error fault ∧ ∃ printed, finish r session lines code =
      { r with printed := printed, exitCode := 1, escaped := some (.prompt (.markup fault)) } := by
  unfold finish
  split
  · exact .inl ⟨_, rfl⟩
  · rename_i fault hprint
    obtain ⟨line, hline, hfault⟩ := exists_of_printLines hprint
    exact .inr ⟨line, hline, fault, hfault, _, rfl⟩

/-- A line about the created files is at fault only if a path among them holds what begins a closing
tag. -/
lemma holdsClosing_of_createdLines {created : List String} {line : String} {fault : MarkupFault}
    (hline : line ∈ createdLines created) (hfault : plainText line = .error fault) :
    ∃ path ∈ created, HoldsClosing path := by
  unfold createdLines at hline
  split at hline
  · obtain rfl := List.mem_singleton.mp hline
    cases hfault
  · rcases List.mem_cons.mp hline with rfl | hline
    · cases hfault
    · obtain ⟨path, hmem, rfl⟩ := List.mem_map.mp hline
      exact ⟨path, hmem, prints_createdLine.holdsClosing hfault⟩

/-- The line of a failure is printed, or its message holds what begins a closing tag. -/
lemma finish_message (r : CommandReport) (session : Session) (message : String)
    (hescaped : r.escaped = none) (hanswered : r.isUnanswered = false) :
    (finish r session ["[red]Error:[/red] " ++ message] 1).IsDocumented ∨
    HoldsClosing message ∧ ∃ fault printed, finish r session ["[red]Error:[/red] " ++ message] 1 =
      { r with printed := printed, exitCode := 1, escaped := some (.prompt (.markup fault)) } := by
  cases hshown : plainText ("[red]Error:[/red] " ++ message) with
  | error fault =>
    exact .inr ⟨prints_errorLine.holdsClosing hshown, fault, session.printed,
      by simp [finish, printLines, hshown]⟩
  | ok line =>
    obtain ⟨text, rfl⟩ := exists_of_plainText_errorLine hshown
    have heq : finish r session ["[red]Error:[/red] " ++ message] 1 =
        { r with printed := session.printed ++ ("Error: " ++ text ++ "\n"), exitCode := 1 } := by
      simp [finish, printLines, hshown, Session.write]
    rw [heq]
    exact .inl (.told rfl hescaped hanswered rfl)

/-- A failure is told by a line, or is the end of the typed lines, or ends the command without a word. -/
lemma finishFailed_cases {r : CommandReport} {f : Failure} (session : Session)
    (hescaped : r.escaped = none) (hanswered : r.isUnanswered = false) :
    (finishFailed r session f).IsDocumented ∨
    (∃ fault, f.isPrinted = true ∧ HoldsClosing f.message ∧
      (finishFailed r session f).escaped = some (.prompt (.markup fault)) ∧
      (finishFailed r session f).exitCode = 1) ∨
    f.isPrinted = false ∧ f ≠ .prompt .endOfInput ∧ (finishFailed r session f).escaped = some f ∧
      (finishFailed r session f).exitCode = 1 := by
  unfold finishFailed
  cases hprinted : f.isPrinted with
  | true =>
    dsimp only
    rw [if_pos rfl]
    refine (finish_message r session f.message hescaped hanswered).imp_right ?_
    rintro ⟨hholds, fault, printed, heq⟩
    rw [heq]
    exact .inl ⟨fault, rfl, hholds, rfl, rfl⟩
  | false =>
    dsimp only
    rw [if_neg (by simp)]
    by_cases hend : f = .prompt .endOfInput
    · rw [if_pos (by simpa using hend)]
      exact .inl (.aborted rfl hescaped rfl)
    · rw [if_neg (by simpa using hend)]
      exact .inr (.inr ⟨rfl, hend, rfl, rfl⟩)

end

/-- The arguments that ask for a store to be extended. -/
def storeArguments : List String := ["extend", "store", "X", "-t", "/t"]

/-- What these arguments ask for. -/
def ExtendArguments.store : ExtendArguments where
  type := .store
  name := "X"
  target := "/t"

lemma parseArguments_store : parseArguments storeArguments = some (.extend .store) := rfl

/-- A module, with settings beside it that are no YAML. -/
def Disk.brokenSettings : Disk where
  entries :=
    [(["extendgen.yaml"], .file (Text.encode "\x7b")), (["t"], .directory),
     (["t", "package.json"], .file (Text.encode "\x7b\x7d"))]

/-- A module whose manifest is no JSON. -/
def Disk.brokenManifest : Disk where
  entries := [(["t"], .directory), (["t", "package.json"], .file (Text.encode "\x7b"))]

end ThemeOverride
