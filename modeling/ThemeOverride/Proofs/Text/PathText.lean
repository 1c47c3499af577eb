import Mathlib.Tactic.Lemma
import ThemeOverride.Text.Path

/-!
# Paths and their texts

A path whose names are names that a text can spell is read back from its own text. So two such
paths with one text are one path, and a list of path texts says which paths it is about.

## Main definitions

* `ThemeOverride.Path.IsName` — what can stand between two slashes and leads somewhere.
* `ThemeOverride.Path.Proper` — paths that texts spell.

## Main results

* `ThemeOverride.Path.proper_ofString` — reading a text gives a proper path.
* `ThemeOverride.Path.ofString_toString` — a proper path is read back from its text.
-/

namespace ThemeOverride

namespace Text

/-! ## Splitting at a character -/

variable {separator : Char}

/-- The pieces of a text do not hold the character at which it was split. -/
lemma notMem_of_mem_splitAt (s : List Char) : ∀ piece ∈ splitAt separator s, separator ∉ piece := by
  induction s with
  | nil => simp [splitAt]
  | cons c rest ih =>
    unfold splitAt
    split
    · intro piece hp
      rcases List.mem_cons.mp hp with rfl | hp
      · exact List.not_mem_nil
      · exact ih piece hp
    · rename_i hc
      have hc' : separator ≠ c := by rintro rfl; simp at hc
      cases hs : splitAt separator rest with
      | nil => exact absurd hs (splitAt_ne_nil separator rest)
      | cons first pieces =>
        rw [hs] at ih
        intro piece hp
        rcases List.mem_cons.mp hp with rfl | hp
        · exact List.not_mem_cons_of_ne_of_not_mem hc' (ih first List.mem_cons_self)
        · exact ih piece (List.mem_cons_of_mem _ hp)

/-- A text without the character is one piece. -/
lemma splitAt_of_notMem {s : List Char} (h : separator ∉ s) : splitAt separator s = [s] := by
  induction s with
  | nil => rfl
  | cons c rest ih =>
    obtain ⟨hc, hr⟩ := not_or.mp (mt List.mem_cons.mpr h)
    have hc' : (c == separator) = false := by simpa using fun he => hc he.symm
    simp [splitAt, hc', ih hr]

/-- A text up to the character is the first piece. -/
lemma splitAt_append_cons {s : List Char} (h : separator ∉ s) (rest : List Char) :
    splitAt separator (s ++ separator :: rest) = s :: splitAt separator rest := by
  induction s with
  | nil => simp [splitAt]
  | cons c s ih =>
    obtain ⟨hc, hs⟩ := not_or.mp (mt List.mem_cons.mpr h)
    have hc' : (c == separator) = false := by simpa using fun he => hc he.symm
    simp [splitAt, hc', ih hs]

/-- Texts joined by slashes are the pieces at slashes. -/
lemma splitAt_join {texts : List String} (hne : texts ≠ [])
    (h : ∀ s ∈ texts, '/' ∉ s.toList) :
    splitAt '/' (join "/" texts).toList = texts.map String.toList := by
  induction texts with
  | nil => exact absurd rfl hne
  | cons s rest ih =>
    cases rest with
    | nil => simpa [join] using splitAt_of_notMem (h s List.mem_cons_self)
    | cons t rest =>
      have hj : (join "/" (s :: t :: rest)).toList =
          s.toList ++ '/' :: (join "/" (t :: rest)).toList := by
        simp [join]
      rw [hj, splitAt_append_cons (h s List.mem_cons_self),
        ih (by simp) (fun u hu => h u (List.mem_cons_of_mem _ hu))]
      rfl

end Text

namespace Path

/-! ## Proper paths -/

/-- What can stand between two slashes and leads somewhere. -/
def IsName (s : String) : Prop := s ≠ "" ∧ s ≠ "." ∧ '/' ∉ s.toList

/-- A path that a text spells: its root is empty or one or two slashes, and its names are names. -/
structure Proper (p : Path) : Prop where
  root_mem : p.root ∈ ["", "/", "//"]
  isName : ∀ n ∈ p.names, IsName n

lemma rootOf_mem (s : List Char) : rootOf s ∈ ["", "/", "//"] := by
  unfold rootOf
  split <;> simp

/-- Whether a piece of a path text leads anywhere. -/
lemma isName_ofList {piece : List Char} (hs : '/' ∉ piece)
    (hp : !(piece.isEmpty || piece == ['.'])) : IsName (String.ofList piece) := by
  simp only [Bool.not_or, Bool.and_eq_true, Bool.not_eq_eq_eq_not, Bool.not_true,
    List.isEmpty_eq_false_iff, beq_eq_false_iff_ne] at hp
  refine ⟨fun he => hp.1 ?_, fun he => hp.2 ?_, by simpa using hs⟩
  · simpa using congrArg String.toList he
  · simpa using congrArg String.toList he

/-- **Reading a text gives a proper path.** -/
theorem proper_ofString (s : String) : (ofString s).Proper where
  root_mem := rootOf_mem s.toList
  isName := by
    intro n hn
    obtain ⟨piece, hp, rfl⟩ := List.mem_map.mp hn
    obtain ⟨hp, hlead⟩ := List.mem_filter.mp hp
    exact isName_ofList (Text.notMem_of_mem_splitAt _ piece hp) hlead

namespace Proper

variable {p q : Path}

protected lemma join (hp : p.Proper) (hq : q.Proper) : (p.join q).Proper := by
  unfold Path.join
  split
  · exact hq
  · refine ⟨hp.root_mem, fun n hn => ?_⟩
    rcases List.mem_append.mp hn with hn | hn
    · exact hp.isName n hn
    · exact hq.isName n hn

protected lemma child (hp : p.Proper) (s : String) : (p.child s).Proper :=
  hp.join (proper_ofString s)

protected lemma parent (hp : p.Proper) : p.parent.Proper :=
  ⟨hp.root_mem, fun n hn => hp.isName n (List.dropLast_subset _ hn)⟩

protected lemma ancestors (hp : p.Proper) : ∀ q ∈ p.ancestors, q.Proper := by
  suffices h : ∀ n (p : Path), p.Proper → ∀ q ∈ ancestors.go n p, q.Proper from h _ p hp
  intro n
  induction n with
  | zero => intro p _ q hq; simp [ancestors.go] at hq
  | succ n ih =>
    intro p hp q hq
    rcases List.mem_cons.mp hq with rfl | hq
    · exact hp.parent
    · exact ih _ hp.parent q hq

end Proper

/-! ## Reading a path back -/

/-- The names of a joined text are the texts. -/
lemma namesOf_join {names : List String} (h : ∀ n ∈ names, IsName n) :
    namesOf (Text.join "/" names).toList = names := by
  cases names with
  | nil => rfl
  | cons first rest =>
    rw [namesOf, Text.splitAt_join (by simp) (fun n hn => (h n hn).2.2)]
    have hall : ∀ n ∈ (first :: rest).map String.toList, (!(n.isEmpty || n == ['.'])) = true := by
      intro piece hp
      obtain ⟨n, hn, rfl⟩ := List.mem_map.mp hp
      obtain ⟨hne, hdot, -⟩ := h n hn
      have h1 : n.toList ≠ [] := fun he => hne (String.toList_inj.mp (by simpa using he))
      have h2 : n.toList ≠ ['.'] := fun he => hdot (String.toList_inj.mp (by simpa using he))
      simp [h1, h2]
    rw [List.filter_eq_self.mpr hall]
    simp

/-- A slash in front adds no name. -/
lemma namesOf_slash (s : List Char) : namesOf ('/' :: s) = namesOf s := by
  simp [namesOf, Text.splitAt]

/-- Names joined by slashes do not begin with a slash. -/
lemma head?_join {names : List String} (h : ∀ n ∈ names, IsName n) :
    (Text.join "/" names).toList.head? ≠ some '/' := by
  cases names with
  | nil => simp [Text.join]
  | cons first rest =>
    obtain ⟨hne, -, hslash⟩ := h first List.mem_cons_self
    obtain ⟨c, cs, hc⟩ : ∃ c cs, first.toList = c :: cs := by
      cases hf : first.toList with
      | nil => exact absurd (String.toList_inj.mp (by simpa using hf)) hne
      | cons c cs => exact ⟨c, cs, rfl⟩
    have hj : (Text.join "/" (first :: rest)).toList.head? = some c := by
      cases rest with
      | nil => simp [Text.join, hc]
      | cons t rest => simp [Text.join, hc]
    rw [hj]
    rintro he
    cases he
    exact hslash (by simp [hc])

/-- The root of a text that begins with a root and goes on without a slash. -/
lemma rootOf_append {root : String} (hr : root ∈ ["", "/", "//"]) {s : List Char}
    (hs : s.head? ≠ some '/') : rootOf (root.toList ++ s) = root := by
  have hc : ∀ c rest, s = c :: rest → c ≠ '/' := by
    rintro c rest rfl rfl
    exact hs rfl
  simp only [List.mem_cons, List.not_mem_nil, or_false] at hr
  rcases hr with rfl | rfl | rfl
  · cases s with
    | nil => rfl
    | cons c rest => simp [rootOf, hc c rest rfl]
  · cases s with
    | nil => rfl
    | cons c rest => simp [rootOf, hc c rest rfl]
  · cases s with
    | nil => rfl
    | cons c rest => simp [rootOf, hc c rest rfl]

/-- The names behind a root. -/
lemma namesOf_append {root : String} (hr : root ∈ ["", "/", "//"]) (s : List Char) :
    namesOf (root.toList ++ s) = namesOf s := by
  simp only [List.mem_cons, List.not_mem_nil, or_false] at hr
  rcases hr with rfl | rfl | rfl
  · simp
  · simp [namesOf_slash]
  · simp [namesOf_slash]

/-- **A proper path is read back from its text.** -/
theorem ofString_toString {p : Path} (h : p.Proper) : ofString p.toString = p := by
  obtain ⟨root, names⟩ := p
  have hroot : root ∈ ["", "/", "//"] := h.root_mem
  have hnames : ∀ n ∈ names, IsName n := h.isName
  by_cases hempty : root = "" ∧ names = []
  · obtain ⟨rfl, rfl⟩ := hempty
    rfl
  · have ht : (Path.toString ⟨root, names⟩).toList =
        root.toList ++ (Text.join "/" names).toList := by
      have hne : (root == "" && names.isEmpty) = false := by
        simpa [List.isEmpty_iff] using hempty
      simp [Path.toString, hne]
    unfold ofString
    rw [ht, rootOf_append hroot (head?_join hnames), namesOf_append hroot, namesOf_join hnames]

/-- A name that paths spell is the one name of its path. -/
lemma ofString_of_isName {name : String} (h : IsName name) : ofString name = ⟨"", [name]⟩ := by
  have hp : (Path.mk "" [name]).Proper := ⟨by simp, by simpa using h⟩
  have hname : (Path.mk "" [name]).toString = name := by simp [Path.toString, Text.join]
  rw [← hname, ofString_toString hp, hname]

lemma child_of_isName {name : String} (h : IsName name) (p : Path) :
    p.child name = ⟨p.root, p.names ++ [name]⟩ := by
  simp [child, join, ofString_of_isName h, isAbsolute]

/-- Proper paths with one text are one path. -/
lemma eq_of_toString_eq {p q : Path} (hp : p.Proper) (hq : q.Proper)
    (h : p.toString = q.toString) : p = q := by
  rw [← ofString_toString hp, h, ofString_toString hq]

end Path

end ThemeOverride
