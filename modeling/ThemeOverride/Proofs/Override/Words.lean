import ThemeOverride.Override.Extension
import ThemeOverride.Proofs.Export.TemplateNames
import ThemeOverride.Proofs.Script.Rows
import ThemeOverride.Proofs.Text.UpperCase

/-!
# The words of an override

An override is written with the names of exports, the words that it imports them under, and the
path that it imports them from. Plain names and quotable paths take the places of place holders, so
that what is written with them is read as its template is.

## Main definitions

* `ThemeOverride.isPlainName` — a name that may stand where an override writes it.
* `ThemeOverride.isPath` — a text that may stand in quotes.
* `ThemeOverride.filling` — what is put in the places of a template.

## Main results

* `ThemeOverride.isWord_sourceLocalName` — an export with a plain name is imported under a word.
-/

namespace ThemeOverride

open Script Analysis

/-! ## Names -/

/-- Whether a name is a word without escapes, and none that the language reserves. -/
def isPlainName (name : String) : Bool :=
  isWord name.toList && !(["enum", "extends", "implements", "typeof", "default"].contains name)

/-- Whether a text may stand in quotes, of either kind. -/
def isPath (path : String) : Bool := path != "" && path.toList.all isQuotable

/-- The name under which an override imports an export: what it begins with is told by the case of
the first character. -/
lemma toList_sourceLocalName {name : String} {c : Char} {rest : List Char}
    (h : name.toList = c :: rest) : (sourceLocalName name).toList =
      if Text.isUpper c then "Source".toList ++ c :: rest
      else "source".toList ++ (Text.upper c ++ rest) := by
  unfold sourceLocalName capitalize
  rw [h]
  dsimp only
  split
  · rw [String.toList_append, h]
  · rw [String.toList_append]
    exact congrArg _ String.toList_ofList

/-- **An export with a plain name is imported under a word**, which begins with `source` or
`Source`. -/
lemma isWord_sourceLocalName {name : String} (h : isWord name.toList) :
    isWord (sourceLocalName name).toList ∧
      ∀ w : String, isForeign w → w.toList ≠ (sourceLocalName name).toList := by
  obtain ⟨c, rest, hname, hc, hrest⟩ := isWord_iff.mp h
  have hfront : ∃ tail, (∀ d ∈ tail, isNamePart d) ∧
      ((sourceLocalName name).toList = "source".toList ++ tail ∨
        (sourceLocalName name).toList = "Source".toList ++ tail) := by
    rw [toList_sourceLocalName hname]
    split
    · exact ⟨c :: rest, fun d hd => isNamePart_of_mem_word h (hname ▸ hd), Or.inr rfl⟩
    · exact ⟨Text.upper c ++ rest, List.forall_mem_append.mpr ⟨isNamePart_upper hc, hrest⟩,
        Or.inl rfl⟩
  obtain ⟨tail, htail, heq⟩ := hfront
  have hword : ∀ front : List Char, isWord front → isWord (front ++ tail) := by
    intro front hfront
    obtain ⟨d, more, rfl, hd, hmore⟩ := isWord_iff.mp hfront
    exact isWord_iff.mpr ⟨d, more ++ tail, rfl, hd, List.forall_mem_append.mpr ⟨hmore, htail⟩⟩
  constructor
  · rcases heq with heq | heq <;> rw [heq] <;> exact hword _ (by decide)
  · intro w hw hne
    unfold isForeign at hw
    rw [Bool.not_eq_true', Bool.or_eq_false_iff, hne] at hw
    have hbegins : ∀ front : List Char, front.isPrefixOf (front ++ tail) := fun front =>
      List.isPrefixOf_iff_prefix.mpr (List.prefix_append front tail)
    rcases heq with heq | heq
    · rw [heq, hbegins] at hw
      cases hw.1
    · rw [heq, hbegins] at hw
      cases hw.2

/-! ## What is put in the places of templates -/

lemma isWord_of_isPlainName {name : String} (h : isPlainName name) : isWord name.toList :=
  ((Bool.and_eq_true _ _).mp h).1

/-- The name that takes the place of a listed one. The one word that means something where names
are listed has templates of its own. -/
def listedName (name : String) : String := if name = "type" then "a" else name

lemma ne_of_isPlainName {name : String} (h : isPlainName name) {w : String}
    (hw : markedWords.contains w) : w.toList ≠ name.toList := by
  unfold isPlainName at h
  rw [Bool.and_eq_true, Bool.not_eq_true'] at h
  rintro heq
  obtain rfl : w = name := String.toList_inj.mp heq
  simp_all [markedWords]

lemma admits_listedName {name : String} (h : isPlainName name) :
    Place.listed.slot.Admits (listedName name).toList := by
  unfold listedName
  split
  · refine ⟨by decide, fun w hw heq => ?_⟩
    obtain rfl : w = "a" := String.toList_inj.mp heq
    exact absurd hw (by decide)
  · rename_i hne
    refine ⟨isWord_of_isPlainName h, fun w hw heq => ?_⟩
    obtain rfl : w = name := String.toList_inj.mp heq
    rcases List.mem_cons.mp (List.contains_iff_mem.mp hw) with htype | hmarked
    · exact hne htype
    · exact ne_of_isPlainName h (List.contains_iff_mem.mpr hmarked) rfl

section Filling

variable {gap : List Char} {name path : String}

/-- Blanks, the name of an export with the word it is imported under, a path, and what follows are
put in the places of a template. -/
def filling (hgap : ∀ c ∈ gap, isSeparator c) (hname : isPlainName name) (hpath : isPath path)
    (rest : List Char) : Filling where
  value
    | .gap => gap
    | .name => name.toList
    | .listed => (listedName name).toList
    | .localName => (sourceLocalName name).toList
    | .path => path.toList
    | .rest => rest
  admits p := by
    cases p with
    | gap => exact hgap
    | name => exact ⟨isWord_of_isPlainName hname, fun w hw => ne_of_isPlainName hname hw⟩
    | listed => exact admits_listedName hname
    | localName => exact isWord_sourceLocalName (isWord_of_isPlainName hname)
    | path =>
      unfold isPath at hpath
      simp only [Bool.and_eq_true, bne_iff_ne, List.all_eq_true] at hpath
      exact ⟨fun h => hpath.1 (String.toList_eq_nil_iff.mp h), hpath.2⟩
    | rest => trivial

variable (hname : isPlainName name) (hpath : isPath path) (hgap : ∀ c ∈ gap, isSeparator c)
  (rest : List Char)

@[simp] lemma expand_name :
    (filling hgap hname hpath rest).expand "\ue000".toList = name.toList := List.append_nil _

@[simp] lemma expand_localName :
    (filling hgap hname hpath rest).expand "\ue001".toList = (sourceLocalName name).toList :=
  List.append_nil _

@[simp] lemma madeName_name (kind : ExportKind) :
    madeName (filling hgap hname hpath rest) ("\ue000", kind) = (name, kind) := by
  rw [madeName, expand_name, String.ofList_toList]

/-- What stands for itself is kept before any text. -/
lemma expand_before {front : List Char} (h : front.all isOrdinary) :
    (filling hgap hname hpath rest).expand (front ++ ['\ue003']) = front ++ rest := by
  rw [Filling.expand_append, Filling.expand_ordinary _ h]
  exact congrArg (front ++ ·) (List.append_nil rest)

/-- A name and a path for templates that hold none. -/
lemma isPlainName_a : isPlainName "a" := by decide

lemma isPath_a : isPath "a" := by decide

/-- A template may follow what comes before it without blanks. -/
lemma isSeparator_nil : ∀ c ∈ ([] : List Char), isSeparator c := by simp

end Filling

end ThemeOverride
