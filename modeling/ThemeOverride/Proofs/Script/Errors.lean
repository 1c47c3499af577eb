import ThemeOverride.Proofs.Script.Recovered
import ThemeOverride.Proofs.Script.Rows

/-!
# Texts with errors

The grammar reads a text as a whole or not at all. A text that it cannot read has a tree
nevertheless, with errors where no statement could be read. Both ways to say that a text has errors
agree: there is an error in the tree of a text exactly where the grammar cannot read the text.

## Main definitions

* `ThemeOverride.Script.Tree.IsMadeOf` — all parts of a tree are of some kinds.
* `ThemeOverride.Script.Pattern.makes` — what makes the readings of a pattern so.
* `ThemeOverride.Script.Barren` — a text at which nothing of a script can begin.
* `ThemeOverride.Script.Pattern.stops`, `stays` — what a pattern makes of such a text.

## Main results

* `ThemeOverride.Script.Pattern.Reads.makes`, `Reads.stops` — the readings of such patterns.
* `ThemeOverride.Script.hasError_parse` — the two ways to say that a text has errors.

## Design

Statements are read one after the other until none can be read. For the tree to have no error they
have to reach the end of the text; there the grammar has to stop as well, and not read a statement
from the comments that are left. That no statement begins at a comment, at the end of the text or
at a line for the system is seen from the first tokens of its pattern.
-/

namespace ThemeOverride.Script

open ThemeOverride.Script.Tree

/-! ## Kinds of parts -/

namespace Tree

/-- All parts of a tree are of some kinds. -/
def IsMadeOf (made : Kind → Bool) (t : Tree) : Prop := ∀ part, Within part t → made part.kind

variable {made : Kind → Bool} {t : Tree}

lemma isMadeOf_iff : t.IsMadeOf made ↔ made t.kind ∧ ∀ c ∈ t.children, c.IsMadeOf made := by
  constructor
  · intro h
    exact ⟨h t (.self t), fun c hc part hpart => h part (.inside hc hpart)⟩
  · rintro ⟨hself, hparts⟩ part hpart
    rcases within_iff.mp hpart with rfl | ⟨c, hc, hpart⟩
    · exact hself
    · exact hparts c hc part hpart

lemma isMadeOf_leaf {f : Option Field} {k : Kind} {gap text : List Char} (h : made k) :
    (leaf f k gap text).IsMadeOf made :=
  isMadeOf_iff.mpr ⟨h, fun _ hc => absurd hc List.not_mem_nil⟩

lemma isMadeOf_withField {f : Field} (h : t.IsMadeOf made) : (t.withField f).IsMadeOf made := by
  rw [isMadeOf_iff] at h ⊢
  rwa [kind_withField, children_withField]

lemma isMadeOf_wrap {k : Kind} {ts : List Tree} (hk : made k) (h : ∀ t ∈ ts, t.IsMadeOf made) :
    ∀ t ∈ wrap k ts, t.IsMadeOf made := by
  intro t ht
  rw [wrap_eq, List.mem_append, List.mem_singleton] at ht
  rcases ht with ht | rfl
  · exact h t ((List.takeWhile_sublist _).mem ht)
  · exact isMadeOf_iff.mpr ⟨hk, fun c hc => h c (mem_of_mem_core hc)⟩

lemma isMadeOf_graft {before more : List Tree} (hbefore : ∀ t ∈ before, t.IsMadeOf made)
    (hmore : ∀ t ∈ more, t.IsMadeOf made) : ∀ t ∈ graft before more, t.IsMadeOf made := by
  rcases graft_cases before more with ⟨f, k, cs, hcore, -, heq⟩ | ⟨-, heq⟩
  · have hmem : Tree.node f k cs ∈ core more := by
      rw [hcore]
      exact List.mem_singleton_self _
    obtain ⟨hk, hcs⟩ := isMadeOf_iff.mp (hmore _ (mem_of_mem_core hmem))
    rw [heq]
    refine isMadeOf_wrap hk fun t ht => ?_
    rcases List.mem_append.mp ht with ht | ht
    · exact hbefore t ht
    · rcases List.mem_append.mp ht with ht | ht
      · exact hmore t ((List.takeWhile_sublist _).mem ht)
      · exact hcs t ht
  · rw [heq]
    intro t ht
    exact (List.mem_append.mp ht).elim (hbefore t) (hmore t)

/-- A tree has an error where one of its parts is an error. -/
lemma hasError_eq_false_iff : t.hasError = false ↔ t.IsMadeOf (· != .error) := by
  have hall : ∀ ts : List Tree, (∀ t ∈ ts, t.hasError = false ↔ t.IsMadeOf (· != .error)) →
      (hasErrorAll ts = false ↔ ∀ t ∈ ts, t.IsMadeOf (· != .error)) := by
    intro ts
    induction ts with
    | nil => simp [hasErrorAll]
    | cons t ts ih =>
      intro h
      obtain ⟨ht, hts⟩ := List.forall_mem_cons.mp h
      rw [hasErrorAll, Bool.or_eq_false_iff, ht, ih hts, List.forall_mem_cons]
  induction t using Tree.induction_parts with
  | leaf f k gap text =>
    rw [isMadeOf_iff, hasError]
    simp [Tree.kind, Tree.children]
  | node f k cs ih =>
    rw [isMadeOf_iff, hasError, Bool.or_eq_false_iff, hall cs ih]
    simp [Tree.kind, Tree.children]

end Tree

/-! ## Kinds that patterns make -/

namespace Pattern

section

variable {R : Type} (made : Kind → Bool) (ruleMade : R → Bool)

/-- Whether all parts of what a pattern reads are of some kinds. -/
def makes : Pattern R → Bool
  | token _ kind _ => made kind
  | node kind body => made kind && body.makes
  | seq first second | either first second | grow first second => first.makes && second.makes
  | many body | field _ body | after _ body | only _ body => body.makes
  | rule r => ruleMade r
  | empty | ahead _ | absent _ | guard _ => true

end

variable {R : Type} {made : Kind → Bool} {ruleMade : R → Bool} {rules : R → Pattern R}

lemma readToken_makes (hcomment : made .comment) {lead : Lead} {kind : Kind} {scan : Scanner}
    (hkind : made kind) {s t : List Char} {trees : List Tree}
    (h : readToken lead kind scan s = some (trees, t)) : ∀ x ∈ trees, x.IsMadeOf made := by
  intro x hx
  obtain ⟨k, gap, text, rfl, rfl | rfl⟩ := exists_leaf_of_readToken h hx
  · exact isMadeOf_leaf hcomment
  · exact isMadeOf_leaf hkind

/-- **What a pattern makes**: the parts of what it reads are of the kinds that stand in it. -/
theorem Reads.makes (hcomment : made .comment)
    (hrules : ∀ r, ruleMade r → (rules r).makes made ruleMade) {left xs : List Tree} {p : Pattern R}
    {s t : List Char} (h : Reads rules left p s xs t) (hp : p.makes made ruleMade) :
    ∀ x ∈ xs, x.IsMadeOf made := by
  induction h with
  | empty | done | ahead | absent | guard => exact fun x hx => absurd hx List.not_mem_nil
  | token htoken => exact readToken_makes hcomment hp htoken
  | seq _ _ ihFirst ihSecond =>
    obtain ⟨hpFirst, hpSecond⟩ := (Bool.and_eq_true _ _).mp hp
    exact List.forall_mem_append.mpr ⟨ihFirst hpFirst, ihSecond hpSecond⟩
  | first _ ih => exact ih ((Bool.and_eq_true _ _).mp hp).1
  | second _ ih => exact ih ((Bool.and_eq_true _ _).mp hp).2
  | again _ _ ihBody ihRest => exact List.forall_mem_append.mpr ⟨ihBody hp, ihRest hp⟩
  | rule _ ih => exact ih (hrules _ hp)
  | node _ ih =>
    obtain ⟨hkind, hbody⟩ := (Bool.and_eq_true _ _).mp hp
    exact isMadeOf_wrap hkind (ih hbody)
  | field _ ih =>
    intro x hx
    obtain ⟨y, hy, rfl⟩ := List.mem_map.mp hx
    have hmade := ih hp y hy
    split
    · exact hmade
    · exact isMadeOf_withField hmade
  | base _ ih => exact ih ((Bool.and_eq_true _ _).mp hp).1
  | grown _ _ ihBefore ihStep =>
    exact isMadeOf_graft (ihBefore hp) (ihStep ((Bool.and_eq_true _ _).mp hp).2)
  | after _ _ ih | only _ _ ih => exact ih hp

end Pattern

/-- Whether what a rule reads holds no error. -/
def Rule.isSound : Rule → Bool
  | objectType kind => kind != .error
  | _ => true

namespace Form

lemma firstOf_makes {made : Kind → Bool} {ruleMade : Rule → Bool} (htoken : made .token)
    {forms : List Form} (h : ∀ p ∈ forms, p.makes made ruleMade) :
    (firstOf forms).makes made ruleMade := by
  induction forms with
  | nil => exact htoken
  | cons p rest ih =>
    obtain ⟨hp, hrest⟩ := List.forall_mem_cons.mp h
    cases rest with
    | nil => exact hp
    | cons q rest => exact (Bool.and_eq_true _ _).mpr ⟨hp, ih hrest⟩

/-- A row of operands, from any level on. -/
lemma operand_makes (level : Nat) (scope : Rule.Scope) :
    (operand level scope).makes (· != .error) Rule.isSound := by
  have hall : ∀ o ∈ binaryOperators,
      (Pattern.node .binary
        (.seq (firstOf (ops o.2.1 :: o.2.2.map word))
          (rule (.operand (o.1 + 1) scope)))).makes (· != .error) Rule.isSound :=
    List.all_eq_true.mp rfl
  have hsteps : (binarySteps level scope).makes (· != .error) Rule.isSound := by
    refine (Bool.and_eq_true _ _).mpr ⟨firstOf_makes rfl (List.forall_mem_map.mpr ?_), rfl⟩
    exact fun o ho => hall o (List.mem_filter.mp ho).1
  have hgoes : (goesOn scope.ending).makes (· != .error) Rule.isSound := by
    cases scope.ending <;> rfl
  exact (Bool.and_eq_true _ _).mpr ⟨rfl, (Bool.and_eq_true _ _).mpr ⟨hgoes, hsteps⟩⟩

end Form

/-- **The grammar makes no errors** in either dialect. -/
theorem grammar_makes (dialect : Dialect) (r : Rule) (hr : r.isSound) :
    (grammar dialect r).makes (· != .error) Rule.isSound := by
  revert r
  refine Rule.forall_of_others (fun level scope _ => ?_) (fun kind hkind => ?_) ?_
  · exact Form.operand_makes level scope
  · exact (Bool.and_eq_true _ _).mpr ⟨hkind, rfl⟩
  · cases dialect <;> decide

/-! ## Places where nothing begins -/

/-- Nothing of a script can begin at a text: at its end, perhaps after comments, or at a line for
the system. -/
def Barren (s : List Char) : Prop :=
  (comments s).2.2 = [] ∨ ∃ rest, (comments s).2.2 = '#' :: '!' :: rest

/-- Whether a scanner finds nothing at the end of a text and at a line for the system. -/
def Scanner.shuns : Scanner → Bool
  | keyword w => w != ""
  | mark m => m.toList.head?.any (· != '#')
  | word | nameExcept _ | nameAmong _ | privateName | operator _ | operatorAmong _ | number => true
  | _ => false

lemma Scanner.length_of_shuns {scan : Scanner} (h : scan.shuns) :
    scan.length [] = none ∧ ∀ rest, scan.length ('#' :: '!' :: rest) = none := by
  have hword : ∀ c rest, isNameStart c = false → c ≠ '\\' → wordLength (c :: rest) = none := by
    intro c rest hc hne
    rw [wordLength, if_neg (by simp [hc])]
    simp [unicodeEscapeLength, hne]
  have hmark : ∀ rest, wordLength ('#' :: '!' :: rest) = none := fun rest =>
    hword '#' _ (by decide) (by decide)
  have hoperator : ∀ rest, operatorAt ('#' :: '!' :: rest) = none := fun rest => rfl
  cases scan with
  | keyword w =>
    have hw : w ≠ "" := bne_iff_ne.mp h
    exact ⟨Scanner.length_nil h, fun rest => by simp [length, Script.keyword, wordAt, hmark, hw]⟩
  | mark m =>
    have hne : m ≠ "" := by
      rintro rfl
      cases h
    have hhead : m.toList.head?.any (· != '#') := h
    refine ⟨Scanner.length_nil (bne_iff_ne.mpr hne), fun rest => ?_⟩
    cases hm : m.toList with
    | nil => exact absurd (String.toList_eq_nil_iff.mp hm) hne
    | cons c cs =>
      rw [hm] at hhead
      have hc : c ≠ '#' := by simpa using hhead
      simp [length, Script.mark, hm, hc]
  | word => exact ⟨rfl, hmark⟩
  | nameExcept words => exact ⟨rfl, fun rest => by simp [length, Script.nameExcept, hmark]⟩
  | nameAmong words => exact ⟨rfl, fun rest => by simp [length, Script.nameAmong, hmark]⟩
  | privateName =>
    refine ⟨rfl, fun rest => ?_⟩
    simp [length, privateNameLength, hword '!' rest (by decide) (by decide)]
  | operator o =>
    have hend : operatorAt [] = none := rfl
    exact ⟨by simp [length, Script.operator, hend],
      fun rest => by simp [length, Script.operator, hoperator]⟩
  | operatorAmong os =>
    exact ⟨Scanner.length_nil rfl, fun rest => by simp [length, Script.operatorAmong, hoperator]⟩
  | number => exact ⟨Scanner.length_nil rfl, fun rest => rfl⟩
  | _ => cases h

namespace Pattern

section

variable {R : Type} (ruleStops : R → Bool)

mutual

/-- Whether a pattern cannot be read where nothing begins. -/
def stops : Pattern R → Bool
  | token lead _ scan => lead == .comments && scan.shuns
  | seq first second => first.stops || (first.stays && second.stops)
  | either first second => first.stops && second.stops
  | rule r => ruleStops r
  | node _ body | field _ body | after _ body | only _ body | ahead body | grow body _ => body.stops
  | empty | many _ | absent _ | guard _ => false

/-- Whether a pattern passes no character where nothing begins. -/
def stays : Pattern R → Bool
  | token lead _ scan => lead == .comments && scan.shuns
  | seq first second | grow first second => first.stops || (first.stays && second.stays)
  | either first second => first.stays && second.stays
  | rule r => ruleStops r
  | many body | node _ body | field _ body | after _ body | only _ body => body.stays
  | empty | ahead _ | absent _ | guard _ => true

end

end

variable {R : Type} {ruleStops : R → Bool} {rules : R → Pattern R} {s : List Char}

lemma readToken_stops (hs : Barren s) {lead : Lead} {kind : Kind} {scan : Scanner}
    (h : (lead == .comments && scan.shuns) = true) : readToken lead kind scan s = none := by
  obtain ⟨hlead, hscan⟩ := (Bool.and_eq_true _ _).mp h
  obtain ⟨hnil, hline⟩ := Scanner.length_of_shuns hscan
  rw [beq_iff_eq.mp hlead]
  unfold readToken
  rw [Option.map_eq_none_iff]
  change scan.length (comments s).2.2 = none
  rcases hs with hs | ⟨rest, hs⟩
  · rw [hs, hnil]
  · rw [hs, hline]

/-- **Where nothing begins**, a pattern that stops cannot be read, and one that stays passes no
character. -/
theorem Reads.stops (hrules : ∀ r, ruleStops r → (rules r).stops ruleStops)
    {left xs : List Tree} {p : Pattern R} {t : List Char} (h : Reads rules left p s xs t)
    (hs : Barren s) : ¬ p.stops ruleStops ∧ (p.stays ruleStops → t = s) := by
  induction h with
  | empty | absent | guard => exact ⟨Bool.false_ne_true, fun _ => rfl⟩
  | token htoken =>
    refine ⟨fun hp => ?_, fun hp => ?_⟩ <;>
    · rw [readToken_stops hs hp] at htoken
      cases htoken
  | seq _ _ ihFirst ihSecond =>
    obtain ⟨hstops, hstays⟩ := ihFirst hs
    -- where the first pattern stays, the second begins where the first did
    constructor <;> intro hp <;> rcases (Bool.or_eq_true _ _).mp hp with hp | hp
    · exact hstops hp
    · obtain ⟨hpFirst, hpSecond⟩ := (Bool.and_eq_true _ _).mp hp
      exact (ihSecond (hstays hpFirst ▸ hs)).1 hpSecond
    · exact absurd hp hstops
    · obtain ⟨hpFirst, hpSecond⟩ := (Bool.and_eq_true _ _).mp hp
      exact ((ihSecond (hstays hpFirst ▸ hs)).2 hpSecond).trans (hstays hpFirst)
  | first _ ih =>
    obtain ⟨hstops, hstays⟩ := ih hs
    exact ⟨fun hp => hstops ((Bool.and_eq_true _ _).mp hp).1,
      fun hp => hstays ((Bool.and_eq_true _ _).mp hp).1⟩
  | second _ ih =>
    obtain ⟨hstops, hstays⟩ := ih hs
    exact ⟨fun hp => hstops ((Bool.and_eq_true _ _).mp hp).2,
      fun hp => hstays ((Bool.and_eq_true _ _).mp hp).2⟩
  | done => exact ⟨Bool.false_ne_true, fun _ => rfl⟩
  | again _ _ ihBody ihRest =>
    refine ⟨Bool.false_ne_true, fun hp => ?_⟩
    have hsame := (ihBody hs).2 hp
    exact ((ihRest (hsame ▸ hs)).2 hp).trans hsame
  | rule _ ih =>
    have hstops := (ih hs).1
    exact ⟨fun hp => hstops (hrules _ hp), fun hp => absurd (hrules _ hp) hstops⟩
  | node _ ih | field _ ih | after _ _ ih | only _ _ ih => exact ih hs
  | ahead _ ih => exact ⟨(ih hs).1, fun _ => rfl⟩
  | base _ ih =>
    obtain ⟨hstops, hstays⟩ := ih hs
    refine ⟨hstops, fun hp => ?_⟩
    rcases (Bool.or_eq_true _ _).mp hp with hp | hp
    · exact absurd hp hstops
    · exact hstays ((Bool.and_eq_true _ _).mp hp).1
  | grown _ _ ihBefore ihStep =>
    obtain ⟨hstops, hstays⟩ := ihBefore hs
    refine ⟨hstops, fun hp => ?_⟩
    have hsame := hstays hp
    rcases (Bool.or_eq_true _ _).mp hp with hp | hp
    · exact absurd hp hstops
    · exact ((ihStep (hsame ▸ hs)).2 ((Bool.and_eq_true _ _).mp hp).2).trans hsame

end Pattern

/-- Whether nothing is read by a rule where nothing begins. -/
def Rule.stops : Rule → Bool
  | terminator _ | blockEnd _ | markupName | markupAttribute | markupChild => false
  | _ => true

/-- The grammar stops where nothing begins, in both dialects. -/
theorem grammar_stops (dialect : Dialect) (r : Rule) (hr : r.stops) :
    (grammar dialect r).stops Rule.stops := by
  revert r
  refine Rule.forall_of_others (fun level scope _ => rfl) (fun kind _ => rfl) ?_
  cases dialect <;> decide

/-! ## Texts read to their end -/

variable {dialect : Dialect} {s : List Char}

/-- What the grammar reads holds no error. -/
lemma readForm_sound {form : Form} (hform : form.makes (· != .error) Rule.isSound)
    {trees : List Tree} {rest : List Char} (h : readForm dialect form s = some (trees, rest)) :
    ∀ t ∈ trees, t.IsMadeOf (· != .error) :=
  (Pattern.Reads.of_read h).makes rfl (grammar_makes dialect) hform

/-- No statement is read where nothing begins. -/
lemma readForm_statement_of_barren (hs : Barren s) : readForm dialect Form.statement s = none := by
  refine Option.eq_none_iff_forall_ne_some.mpr fun r hread => ?_
  exact ((Pattern.Reads.of_read hread).stops (grammar_stops dialect) hs).1
    (grammar_stops dialect .statement rfl)

lemma within_insertInside? {new t t' : Tree} {place : Nat}
    (h : insertInside? new place t = some t') : Within new t' := by
  induction t using Tree.induction_parts generalizing place t' with
  | leaf => cases h
  | node f k cs ih =>
    rw [insertInside?] at h
    obtain ⟨cs', hcs', rfl⟩ := Option.map_eq_some_iff.mp h
    rcases insertAt?_cases hcs' with ⟨before, after, -, rfl, -⟩ |
      ⟨before, u, u', after, rfl, rfl, -, hinside⟩
    · exact .inside (List.mem_append_right _ List.mem_cons_self) (.self new)
    · exact .inside (List.mem_append_right _ List.mem_cons_self) (ih u (by simp) hinside)

/-- A tree put among others is within one of them. -/
lemma exists_within_insertAt? {new : Tree} {place : Nat} {ts ts' : List Tree}
    (h : insertAt? new place ts = some ts') : ∃ t ∈ ts', Within new t := by
  rcases insertAt?_cases h with ⟨before, after, -, rfl, -⟩ | ⟨before, u, u', after, -, rfl, -, hu⟩
  · exact ⟨new, by simp, .self new⟩
  · exact ⟨u', by simp, within_insertInside? hu⟩

lemma not_isMadeOf_errorNode (s : List Char) : ¬ (errorNode s).IsMadeOf (· != .error) := fun h => by
  cases h _ (.self _)

/-- A statement with tokens left out has an error. -/
lemma repairStatement?_unsound {trees : List Tree} {rest : List Char}
    (h : repairStatement? dialect s = some (trees, rest)) :
    ¬ ∀ t ∈ trees, t.IsMadeOf (· != .error) := by
  unfold repairStatement? at h
  obtain ⟨n, -, hn⟩ := List.exists_of_findSome?_eq_some h
  obtain ⟨⟨start, stop⟩, -, hstretch⟩ := List.exists_of_findSome?_eq_some hn
  dsimp only at hstretch
  split at hstretch
  · cases hstretch
  · unfold statementWithout? at hstretch
    split at hstretch
    · cases hstretch
    · split at hstretch
      · cases hstretch
      · obtain ⟨trees', hinsert, heq⟩ := Option.map_eq_some_iff.mp hstretch
        obtain ⟨rfl, -⟩ := Prod.mk.inj heq
        obtain ⟨t, ht, hwithin⟩ := exists_within_insertAt? hinsert
        exact fun hsound => by cases hsound t ht _ hwithin

/-- Statements without errors are a row up to the end of the text. -/
lemma row_of_readStatements {fuel : Nat}
    (h : ∀ t ∈ readStatements dialect fuel s, t.IsMadeOf (· != .error)) :
    ∃ xs t, Row dialect s xs t ∧ (comments t).2.2 = [] := by
  induction fuel generalizing s with
  | zero => exact absurd (h _ (List.mem_singleton_self _)) (not_isMadeOf_errorNode s)
  | succ fuel ih =>
    rw [readStatements] at h
    split at h
    · rename_i hend
      exact ⟨[], s, .nil s, List.isEmpty_iff.mp hend⟩
    · cases hfirst : ((readForm dialect Form.statement s).or (repairStatement? dialect s)).getD
          (skipSection s) with
      | mk trees rest =>
        rw [hfirst] at h
        dsimp only at h
        rw [List.forall_mem_append] at h
        obtain ⟨htrees, hrest⟩ := h
        cases hread : readForm dialect Form.statement s with
        | some r =>
          rw [hread, Option.some_or, Option.getD_some] at hfirst
          obtain ⟨xs, t, hrow, hend⟩ := ih hrest
          have hstatement : Pattern.Settles (grammar dialect) [] (.rule .statement) s
              (some (trees, rest)) := by
            rw [← hfirst, ← hread]
            exact (settles_readForm rfl (Nat.le_of_ble_eq_true rfl) s).rule
          exact ⟨_, t, .cons hstatement hrow, hend⟩
        | none =>
          rw [hread, Option.none_or] at hfirst
          cases hrepair : repairStatement? dialect s with
          | some r =>
            rw [hrepair, Option.getD_some] at hfirst
            rw [hfirst] at hrepair
            exact absurd htrees (repairStatement?_unsound hrepair)
          | none =>
            rw [hrepair, Option.getD_none] at hfirst
            unfold skipSection at hfirst
            obtain ⟨rfl, -⟩ := Prod.mk.inj hfirst
            exact absurd (htrees _ (List.mem_singleton_self _)) (not_isMadeOf_errorNode _)

/-- No statement is read where nothing begins, as little as by itself. -/
lemma settles_statement_of_barren (hs : Barren s) :
    Pattern.Settles (grammar dialect) [] (.rule .statement) s none := by
  have hnone : readForm dialect Form.statement s = none := readForm_statement_of_barren hs
  rw [← hnone]
  exact (settles_readForm rfl (Nat.le_of_ble_eq_true rfl) s).rule

/-- A row does not pass a line for the system. -/
lemma not_row_of_beginsHashBang {xs : List Tree} {t : List Char} (hs : beginsHashBang s)
    (h : Row dialect s xs t) (ht : (comments t).2.2 = []) : False := by
  obtain ⟨rest, hrest⟩ := List.isPrefixOf_iff_prefix.mp hs
  have hcomments : ∀ fuel, (commentsUpTo fuel s).2.2 = '#' :: '!' :: rest := by
    intro fuel
    cases fuel with
    | zero => exact hrest.symm
    | succ fuel =>
      have hnone : commentLength (blanks s).2 = none := by
        rw [← hrest]
        rfl
      unfold commentsUpTo
      simp only [hnone]
      exact hrest.symm
  cases h with
  | nil =>
    unfold comments at ht
    rw [hcomments] at ht
    cases ht
  | cons hstatement _ =>
    have hnone : Pattern.Settles (grammar dialect) [] (.rule .statement) s none :=
      settles_statement_of_barren (Or.inr ⟨rest, hcomments s.length⟩)
    cases hstatement.unique hnone

/-- A row up to the end of a text is all of the text, unless it begins with a line for the
system. -/
lemma exists_readProgram?_of_row {xs : List Tree} {t : List Char}
    (hs : beginsHashBang s = false) (h : Row dialect s xs t) (ht : (comments t).2.2 = []) :
    ∃ root, readProgram? dialect s = some root := by
  have hmany := h.many (Pattern.Settles.many_nil (settles_statement_of_barren (Or.inl ht)))
  have hend : readToken .comments .terminator .finish t =
      some ((comments t).1 ++ [.leaf none .terminator (comments t).2.1 []], []) := by
    change (Scanner.finish.length (comments t).2.2).map (fun n =>
      ((comments t).1 ++ [.leaf none .terminator (comments t).2.1 ((comments t).2.2.take n)],
        (comments t).2.2.drop n)) = _
    rw [ht]
    rfl
  have hfinish : Pattern.Settles (grammar dialect) [] (.token .comments .terminator .finish) t
      (some ((comments t).1 ++ [.leaf none .terminator (comments t).2.1 []], [])) :=
    hend ▸ .token
  have hprogram := (settles_iff rfl (Nat.le_of_ble_eq_true rfl)).mp
    (settles_program hs (hmany.seq hfinish))
  exact ⟨_, readProgram?_eq_some_iff.mpr ⟨_, hprogram, rfl⟩⟩

/-- **There is an error in the tree of a text** exactly where the grammar cannot read the text.

**Proof sketch.** The grammar makes no errors. Where the tree has none, the statements are a row
that reaches the end of the text; there no other statement begins, so that the grammar comes to the
end as well. A line for the system is no statement, so that such a text has an error unless the
grammar reads all of it. -/
theorem hasError_parse (dialect : Dialect) (s : List Char) :
    (parse dialect s).hasError = hasSyntaxErrors dialect s := by
  unfold parse hasSyntaxErrors
  cases hread : readProgram? dialect s with
  | some root =>
    obtain ⟨trees, hform, rfl⟩ := readProgram?_eq_some_iff.mp hread
    have hprogram : Form.program.makes (· != .error) Rule.isSound := rfl
    exact hasError_eq_false_iff.mpr (isMadeOf_iff.mpr ⟨rfl, readForm_sound hprogram hform⟩)
  | none =>
    refine Bool.eq_true_of_not_eq_false fun hsound => ?_
    obtain ⟨-, hparts⟩ := isMadeOf_iff.mp (hasError_eq_false_iff.mp hsound)
    obtain ⟨xs, t, hrow, hend⟩ := row_of_readStatements hparts
    by_cases hs : beginsHashBang s
    · exact not_row_of_beginsHashBang hs hrow hend
    · obtain ⟨root, hroot⟩ := exists_readProgram?_of_row (by simpa using hs) hrow hend
      rw [hroot] at hread
      cases hread

end ThemeOverride.Script
