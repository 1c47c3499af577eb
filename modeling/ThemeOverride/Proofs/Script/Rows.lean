import ThemeOverride.Proofs.Script.TemplateReading
import ThemeOverride.Text.Split

/-!
# Rows of statements

A script is a row of statements, read one after the other. What is read of the start of a text as
statements stands before what is read of the rest, so that the tree of a text made from pieces is
made from the trees of the pieces.

## Main definitions

* `ThemeOverride.Script.Row` — what the start of a text is read as.
* `ThemeOverride.Script.Follow` — a text that ends a script, or goes on with an import on a new
  line or an export after an empty line.
* `ThemeOverride.Script.Stands` — a text is read alike wherever it stands between blanks and such a
  text.
* `ThemeOverride.Script.readsAs`, `failsOn` — what a form reads of a template, and that it reads
  nothing.

## Main results

* `ThemeOverride.Script.readProgram?_of_row` — a script that begins with a row.
* `ThemeOverride.Script.Stands.join` — texts that stand make a text that stands.
* `ThemeOverride.Script.settles_of_readsAs`, `settles_of_failsOn` — texts made from a template are
  read as the template is.
-/

namespace ThemeOverride.Script

open Pattern

/-! ## Rows -/

variable {dialect : Dialect}

/-- Some forms are read to every great depth as they are read to the depth of their text. -/
lemma settles_readForm {form : Form} (hfits : form.fits Rule.bounds 200)
    (hheight : form.height Rule.bounds ≤ 400) (s : List Char) :
    Settles (grammar dialect) [] form s (readForm dialect form s) :=
  (settles_iff hfits hheight).mpr rfl

/-- A text begins with statements, which are read as some trees, and goes on with another text. -/
inductive Row (dialect : Dialect) : List Char → List Tree → List Char → Prop
  | nil (s : List Char) : Row dialect s [] s
  | cons {s t u : List Char} {xs ys : List Tree}
      (h : Settles (grammar dialect) [] (.rule .statement) s (some (xs, t)))
      (hrest : Row dialect t ys u) : Row dialect s (xs ++ ys) u

namespace Row

variable {s t u : List Char} {xs ys : List Tree}

lemma single (h : Settles (grammar dialect) [] (.rule .statement) s (some (xs, t))) :
    Row dialect s xs t := by
  have hrow := Row.cons h (.nil t)
  rwa [List.append_nil] at hrow

lemma append (h : Row dialect s xs t) (h' : Row dialect t ys u) : Row dialect s (xs ++ ys) u := by
  induction h with
  | nil => exact h'
  | cons h _ ih =>
    rw [List.append_assoc]
    exact .cons h (ih h')

/-- What comes of a text with a row at its start comes of the text after the row, behind the trees
of the row. -/
lemma many {r : Option (List Tree × List Char)} (h : Row dialect s xs t)
    (hr : Settles (grammar dialect) [] (.many (.rule .statement)) t r) :
    Settles (grammar dialect) [] (.many (.rule .statement)) s
      (r.map fun (ys, u) => (xs ++ ys, u)) := by
  induction h with
  | nil => simpa using hr
  | cons h _ ih =>
    have hmany := h.many_map (ih hr)
    cases r with
    | none => exact hmany
    | some r => simpa using hmany

end Row

/-- Whether a text begins with a line for the system, perhaps after blanks. -/
def beginsHashBang (s : List Char) : Bool := "#!".toList.isPrefixOf (blanks s).2

/-- The statements of a script and its end. -/
def Form.statements : Form :=
  .seq (.many (rule .statement)) (.token .comments .terminator .finish)

lemma settles_program {s : List Char} (h : beginsHashBang s = false)
    {r : Option (List Tree × List Char)}
    (hr : Settles (grammar dialect) [] Form.statements s r) :
    Settles (grammar dialect) [] Form.program s r := by
  have hfound : readToken .blanks .hashBang .hashBang s = none := by
    unfold readToken
    rw [Option.map_eq_none_iff]
    change Scanner.hashBang.length (blanks s).2 = none
    unfold beginsHashBang at h
    simp only [Scanner.length]
    rw [h]
    rfl
  have hnone : Settles (grammar dialect) [] (.token .blanks .hashBang .hashBang) s none :=
    hfound ▸ .token
  have hline : Settles (grammar dialect) [] (Form.optional (.token .blanks .hashBang .hashBang)) s
      (some ([], s)) := .either_right hnone .empty
  have hprogram := hline.seq_map hr
  change Settles (grammar dialect) [] Form.program s _ at hprogram
  cases r with
  | none => exact hprogram
  | some r => exact hprogram

/-- A script is read as its statements. -/
lemma readProgram?_eq {s : List Char} (h : beginsHashBang s = false) :
    readProgram? dialect s =
      match readForm dialect Form.statements s with
      | some (trees, []) => some (.node none .program trees)
      | _ => none := by
  have hread : readForm dialect Form.program s = readForm dialect Form.statements s :=
    (settles_iff rfl (Nat.le_of_ble_eq_true rfl)).mp
      (settles_program h (settles_readForm rfl (Nat.le_of_ble_eq_true rfl) s))
  unfold readProgram?
  exact hread ▸ rfl

/-- **A script that begins with a row** is read as the trees of the row and of what follows. -/
theorem readProgram?_of_row {s t : List Char} {xs : List Tree} (hs : beginsHashBang s = false)
    (ht : beginsHashBang t = false) (h : Row dialect s xs t) :
    readProgram? dialect s =
      (readProgram? dialect t).map fun root => .node none .program (xs ++ root.children) := by
  have hmany : Settles (grammar dialect) [] (.many (Form.rule .statement)) t _ :=
    settles_readForm rfl (Nat.le_of_ble_eq_true rfl) t
  have hstatements : readForm dialect Form.statements s =
      (readForm dialect Form.statements t).map fun (ys, u) => (xs ++ ys, u) := by
    cases hr : readForm dialect (.many (Form.rule .statement)) t with
    | none =>
      rw [hr] at hmany
      have ht : readForm dialect Form.statements t = none :=
        (settles_iff rfl (Nat.le_of_ble_eq_true rfl)).mp hmany.seq_left_none
      have hs : readForm dialect Form.statements s = none :=
        (settles_iff rfl (Nat.le_of_ble_eq_true rfl)).mp (h.many hmany).seq_left_none
      rw [hs, ht]
      rfl
    | some r =>
      obtain ⟨ys, u⟩ := r
      rw [hr] at hmany
      have hend : Settles (grammar dialect) [] (.token .comments .terminator .finish) u _ :=
        settles_readForm rfl (Nat.le_of_ble_eq_true rfl) u
      have ht : readForm dialect Form.statements t = _ :=
        (settles_iff rfl (Nat.le_of_ble_eq_true rfl)).mp (hmany.seq_map hend)
      have hs : readForm dialect Form.statements s = _ :=
        (settles_iff rfl (Nat.le_of_ble_eq_true rfl)).mp ((h.many hmany).seq_map hend)
      rw [hs, ht, Option.map_map]
      congr 1
      funext r
      simp
  rw [readProgram?_eq hs, readProgram?_eq ht, hstatements]
  cases readForm dialect Form.statements t with
  | none => rfl
  | some r =>
    obtain ⟨ys, u⟩ := r
    cases u with
    | nil => rfl
    | cons c u => rfl

/-! ## Texts that stand on their own -/

/-- What may follow a piece of a script: the end of the script, an import on the next line, or an
export after an empty line, perhaps with a decorator before it. -/
inductive Follow : List Char → Prop
  | finish : Follow ['\n']
  | import (rest : List Char) : Follow ("\nimport".toList ++ rest)
  | export (rest : List Char) : Follow ("\n\nexport".toList ++ rest)
  | decorator (rest : List Char) : Follow ("\n\n@".toList ++ rest)

/-- A text is read as statements with a property, wherever it stands between blanks and what may
follow a piece of a script. -/
def Stands (dialect : Dialect) (s : List Char) (tells : List Tree → Prop) : Prop :=
  ∀ gap next, (∀ c ∈ gap, isSeparator c) → Follow next →
    ∃ trees, Row dialect (gap ++ (s ++ next)) trees next ∧ tells trees

namespace Stands

variable {s s' : List Char} {α β : Type} {tells : List α → List Tree → Prop}

lemma mono {P Q : List Tree → Prop} (h : Stands dialect s P) (hPQ : ∀ trees, P trees → Q trees) :
    Stands dialect s Q := by
  intro gap next hgap hnext
  obtain ⟨trees, hrow, htells⟩ := h gap next hgap hnext
  exact ⟨trees, hrow, hPQ trees htells⟩

/-- Two texts that stand, with blanks between them, stand together. -/
lemma append {P Q S : List Tree → Prop} {blank : List Char} (h : Stands dialect s P)
    (h' : Stands dialect s' Q) (hblank : ∀ c ∈ blank, isSeparator c)
    (hfollow : ∀ next, Follow (blank ++ (s' ++ next)))
    (hS : ∀ xs ys, P xs → Q ys → S (xs ++ ys)) : Stands dialect (s ++ (blank ++ s')) S := by
  intro gap next hgap hnext
  obtain ⟨xs, hxs, hP⟩ := h gap _ hgap (hfollow next)
  obtain ⟨ys, hys, hQ⟩ := h' blank next hblank hnext
  refine ⟨xs ++ ys, ?_, hS xs ys hP hQ⟩
  have hrow := hxs.append hys
  simpa only [List.append_assoc] using hrow

/-- **Texts that stand** with blanks between each two stand together, and say together what each
of them says. -/
theorem join {separator : String} {items : List β} {text : β → String} {told : β → List α}
    (hne : items ≠ []) (htells : ∀ a b xs ys, tells a xs → tells b ys → tells (a ++ b) (xs ++ ys))
    (hblank : ∀ c ∈ separator.toList, isSeparator c)
    (hstands : ∀ p ∈ items, Stands dialect (text p).toList (tells (told p)))
    (hfollow : ∀ p ∈ items.tail, ∀ next, Follow (separator.toList ++ ((text p).toList ++ next))) :
    Stands dialect (Text.join separator (items.map text)).toList (tells (items.flatMap told)) := by
  induction items with
  | nil => exact absurd rfl hne
  | cons p rest ih =>
    have hp := hstands p List.mem_cons_self
    cases rest with
    | nil => simpa [Text.join] using hp
    | cons q rest =>
      have hrest := ih (List.cons_ne_nil q rest)
        (fun p hp => hstands p (List.mem_cons_of_mem _ hp))
        (fun p hp => hfollow p (List.mem_cons_of_mem _ hp))
      -- what stands first among the other texts decides what follows the first text
      have hnext : ∀ next, Follow (separator.toList ++
          ((Text.join separator ((q :: rest).map text)).toList ++ next)) := by
        intro next
        cases rest with
        | nil => simpa [Text.join] using hfollow q List.mem_cons_self next
        | cons q' rest =>
          have hq := hfollow q List.mem_cons_self
            (separator.toList ++ ((Text.join separator ((q' :: rest).map text)).toList ++ next))
          simpa [Text.join] using hq
      have happend := append (S := tells (told p ++ (q :: rest).flatMap told)) hp hrest hblank hnext
        (htells _ _)
      simpa [Text.join] using happend

end Stands

/-! ## Readings of templates -/

/-- Whether a template is read by a form as trees that pass a check, up to a given rest. -/
def readsAs (dialect : Dialect) (form : Form) (template : List Char) (check : List Tree → Bool)
    (rest : List Char) : Bool :=
  match readTemplate (grammar dialect) 400 [] form template with
  | some (some (trees, t)) => check trees && t == rest
  | _ => false

/-- Whether no text made from a template can be read by a form. -/
def failsOn (dialect : Dialect) (form : Form) (template : List Char) : Bool :=
  match readTemplate (grammar dialect) 400 [] form template with
  | some none => true
  | _ => false

section

variable (F : Filling) {form : Form} {s t : List Char} {check : List Tree → Bool}

/-- A text made from a template is read as the template is. -/
lemma settles_of_readsAs (h : readsAs dialect form s check t) :
    ∃ trees, check trees ∧ Settles (grammar dialect) [] form (F.expand s)
      (some (trees.map (Tree.fill F), F.expand t)) := by
  unfold readsAs at h
  split at h
  · rename_i trees t' hread
    obtain ⟨hcheck, hrest⟩ := (Bool.and_eq_true _ _).mp h
    rw [beq_iff_eq.mp hrest] at hread
    exact ⟨trees, hcheck, settles_of_readTemplate F hread⟩
  · cases h

/-- A text made from a template cannot be read where the template cannot. -/
lemma settles_of_failsOn (h : failsOn dialect form s) :
    Settles (grammar dialect) [] form (F.expand s) none := by
  unfold failsOn at h
  split at h
  · rename_i hread
    exact settles_of_readTemplate F hread
  · cases h

/-- A text made from the template of a statement begins with that statement. -/
lemma row_of_readsAs (h : readsAs dialect (.rule .statement) s check t) :
    ∃ trees, check trees ∧ Row dialect (F.expand s) (trees.map (Tree.fill F)) (F.expand t) := by
  obtain ⟨trees, hcheck, hread⟩ := settles_of_readsAs F h
  exact ⟨trees, hcheck, .single hread⟩

end

end ThemeOverride.Script
