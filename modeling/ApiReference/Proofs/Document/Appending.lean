import ApiReference.Document.Readme
import ApiReference.Document.Section

/-!
# Appending

Every part of a document is appended to what is written so far, and does not depend on it (`Appending`).

- `Appending` holds of adding a fixed text and of one such part behind another, so it holds of each part of a section
  (`appendEntry_eq`) and of the frame of a README (`appendHeader_eq`, `appendFooter_eq`);
- a loop of such parts appends their texts one after another (`foldl_eq_flatMap`).
-/

namespace ApiReference.Document

/-- What `append` adds to a document does not depend on the document. -/
def Appending (append : Text → Text) : Prop :=
  ∀ document, append document = document ++ append []

namespace Appending

/-- Nothing is added. -/
theorem none : Appending fun document => document :=
  fun document => (List.append_nil document).symm

/-- A text is added behind what another part adds. -/
theorem text {append : Text → Text} (h : Appending append) (t : Text) :
    Appending fun document => append document ++ t := by
  intro document
  show append document ++ t = document ++ (append [] ++ t)
  rw [h document, List.append_assoc]

/-- One part behind another. -/
theorem comp {first second : Text → Text} (h₁ : Appending first) (h₂ : Appending second) :
    Appending fun document => second (first document) := by
  intro document
  show second (first document) = document ++ second (first [])
  rw [h₂ (first document), h₁ document, h₂ (first []), List.append_assoc]

/-- A part that is chosen without regard to the document. -/
theorem ite {c : Prop} [Decidable c] {first second : Text → Text} (h₁ : Appending first) (h₂ : Appending second) :
    Appending fun document => if c then first document else second document := by
  by_cases hc : c
  · simpa only [if_pos hc] using h₁
  · simpa only [if_neg hc] using h₂

/-- A loop appends what its steps append, one after another. -/
theorem foldl_eq_flatMap {α : Type} {append : Text → α → Text} (h : ∀ a, Appending (append · a)) (as : List α)
    (document : Text) : as.foldl append document = document ++ as.flatMap (append []) := by
  induction as generalizing document with
  | nil => simp
  | cons a as ih =>
    have ha : append document a = document ++ append [] a := h a document
    rw [List.foldl_cons, ih, ha, List.flatMap_cons, List.append_assoc]

theorem foldl {α : Type} {append : Text → α → Text} (h : ∀ a, Appending (append · a)) (as : List α) :
    Appending fun document => as.foldl append document := by
  intro document
  show as.foldl append document = document ++ as.foldl append []
  rw [foldl_eq_flatMap h as document, foldl_eq_flatMap h as [], List.nil_append]

end Appending

/-! ## The parts of a section -/

theorem appending_heading (name : Text) (params : List FieldDoc) : Appending (appendHeading · name params) :=
  .ite (.text (.text (.text .none _) _) _) (.text (.text (.text (.text (.text .none _) _) _) _) _)

theorem appending_paragraph (html : Text) : Appending (appendParagraph · html) :=
  .ite .none (.text (.text .none _) _)

theorem appending_fields (title column : Text) (fields : List FieldDoc) :
    Appending (appendFields · title column fields) :=
  .ite .none (.text (.text (.text (.text (.text .none _) _) _) _) _)

theorem appending_sample (code : Text) : Appending (appendSample · code) :=
  .text (.text (.text .none _) _) _

theorem appending_samples (samples : List Text) : Appending (appendSamples · samples) :=
  .ite .none (.comp (.text .none _) (.foldl appending_sample samples))

/-- The samples stand under one heading, one after another. -/
theorem appendSamples_eq {samples : List Text} (h : samples ≠ []) :
    appendSamples [] samples = "### Example\n\n".toList ++ samples.flatMap (appendSample []) := by
  have hempty : ¬ samples.isEmpty = true := fun he => h (List.isEmpty_iff.mp he)
  rw [appendSamples, if_neg hempty, Appending.foldl_eq_flatMap appending_sample, List.nil_append]

theorem appending_returns (value : Option ReturnDoc) : Appending (appendReturns · value) := by
  cases value with
  | none => exact .none
  | some value => exact .text (.text .none _) _

/-- The section of an entry does not depend on the document it is appended to. -/
theorem appendEntry_eq (document name : Text) (e : Entry) :
    appendEntry document name e = document ++ appendEntry [] name e := by
  have h : Appending (appendEntry · name e) :=
    ((((((appending_heading name e.params).comp (appending_paragraph _)).comp (appending_fields _ _ _)).comp
      (appending_fields _ _ _)).comp (appending_samples _)).comp (appending_returns _))
  exact h document

/-- The section of an entry is its parts, one after another. -/
theorem appendEntry_eq_parts (name : Text) (e : Entry) :
    appendEntry [] name e =
      appendHeading [] name e.params ++ appendParagraph [] ((e.description.map Description.full).getD []) ++
        appendFields [] "Parameters".toList "param".toList e.params ++
        appendFields [] "Properties".toList "property".toList e.properties ++ appendSamples [] e.samples ++
        appendReturns [] e.returns? := by
  have hparagraph (document html : Text) : appendParagraph document html = document ++ appendParagraph [] html :=
    appending_paragraph html document
  have hfields (document title column : Text) (fields : List FieldDoc) :
      appendFields document title column fields = document ++ appendFields [] title column fields :=
    appending_fields title column fields document
  have hsamples (document : Text) (samples : List Text) :
      appendSamples document samples = document ++ appendSamples [] samples := appending_samples samples document
  have hreturns (document : Text) (value : Option ReturnDoc) :
      appendReturns document value = document ++ appendReturns [] value := appending_returns value document
  rw [appendEntry, hreturns, hsamples, hfields _ "Properties".toList, hfields _ "Parameters".toList, hparagraph]

/-- The names of the parameters in parentheses, if there are any. -/
def argumentsText (params : List FieldDoc) : Text :=
  if params = [] then [] else ['('] ++ List.intercalate ", ".toList (params.map FieldDoc.name) ++ [')']

theorem appendHeading_eq (name : Text) (params : List FieldDoc) :
    appendHeading [] name params = "### ".toList ++ name ++ argumentsText params ++ "\n\n".toList := by
  have hclosing : ")\n\n".toList = [')'] ++ "\n\n".toList := rfl
  unfold appendHeading argumentsText
  cases params with
  | nil => simp
  | cons field params => simp [hclosing]

/-- A section begins with its heading. -/
theorem heading_prefix_appendEntry (name : Text) (e : Entry) : "### ".toList ++ name <+: appendEntry [] name e := by
  rw [appendEntry_eq_parts, appendHeading_eq]
  simp only [List.append_assoc]
  exact (List.prefix_append_right_inj _).mpr (List.prefix_append name _)

/-! ## The frame of a README -/

/-- The badge of a package does not depend on the document: neither what is added nor what is missing. -/
theorem appendBadge_eq (document : Text) (package : Package) :
    appendBadge document package =
      { appendBadge [] package with text := document ++ (appendBadge [] package).text } := by
  unfold appendBadge
  cases package.repositoryUrl? with
  | none => simp
  | some url => cases hs : Slug.ofUrl? url <;> simp [hs]

/-- The header of a README does not depend on the document: neither what is added nor what is missing. -/
theorem appendHeader_eq (document : Text) (package : Package) (withBadge : Bool) :
    appendHeader document package withBadge =
      { appendHeader [] package withBadge with text := document ++ (appendHeader [] package withBadge).text } := by
  have title : appendTitle document package = document ++ appendTitle [] package := by simp [appendTitle]
  unfold appendHeader
  cases withBadge with
  | false => simp [title]
  | true =>
    simp only [if_true]
    rw [title, appendBadge_eq (document ++ appendTitle [] package), appendBadge_eq (appendTitle [] package)]
    cases h : (appendBadge [] package).error? <;> simp [h]

/-- The footer of a README does not depend on the document. -/
theorem appendFooter_eq (document : Text) (package : Package) :
    appendFooter document package =
      { appendFooter [] package with text := document ++ (appendFooter [] package).text } := by
  unfold appendFooter
  by_cases h : package.hasTestScript = true <;> simp [h, appendInstallation]

end ApiReference.Document
