import ApiReference.Proofs.Document.Appending
import ApiReference.Proofs.Html.Spacing
import ApiReference.Proofs.Markdown.Fence

/-!
# The samples of an entry are read back

The samples of a section stand in fences, one after another, each as it was written. The fence is the same for all, and
a newline ends the last line of each sample. So a reader that takes a block up to the first line that closes it reads
all the samples back exactly if no line of a sample closes a block and none ends with a carriage return, which would end
the line together with the newline (`readFences_appendEntry_iff`).
-/

namespace ApiReference.Document

open Markdown (FitsFence brokenLines brokenLines_newline closesFence markdownLines readFences)

/-- The line that begins a sample. -/
def sampleOpening : Text :=
  "```js".toList

/-- What stands in front of the samples of an entry. -/
def sectionFront (name : Text) (e : Entry) : Text :=
  appendHeading [] name e.params ++ appendParagraph [] ((e.description.map Description.full).getD []) ++
    appendFields [] "Parameters".toList "param".toList e.params ++
    appendFields [] "Properties".toList "property".toList e.properties

/-- The heading of the samples, if there are any. -/
def samplesHeading (samples : List Text) : Text :=
  if samples = [] then [] else "### Example\n\n".toList

/-- The samples in their fences, and what is said about the returned value. -/
def samplesAndReturns (e : Entry) : Text :=
  e.samples.flatMap (appendSample []) ++ appendReturns [] e.returns?

/-! ## Lines -/

/-- A sample is the line that begins it, its own lines, and what stands behind it. -/
theorem brokenLines_sample (code rest : Text) :
    brokenLines (appendSample [] code ++ rest) =
      ⟨sampleOpening, ['\n']⟩ :: brokenLines (code ++ '\n' :: ("```".toList ++ '\n' :: '\n' :: rest)) := by
  have htext : appendSample [] code ++ rest =
      sampleOpening ++ '\n' :: (code ++ '\n' :: ("```".toList ++ '\n' :: '\n' :: rest)) := by
    simp [appendSample, sampleOpening]
  rw [htext, brokenLines_newline (by decide : '\r' ∉ sampleOpening) (by decide : '\n' ∉ sampleOpening)]

/-- Behind a sample stand the line that ends it and an empty one. -/
theorem brokenLines_closing (rest : Text) :
    brokenLines ("```".toList ++ '\n' :: '\n' :: rest) =
      ⟨"```".toList, ['\n']⟩ :: ⟨[], ['\n']⟩ :: brokenLines rest := by
  rw [brokenLines_newline (by decide) (by decide), brokenLines]

/-- The line on the returned value begins no sample, nor does an empty one. -/
theorem readFences_returns (value? : Option ReturnDoc) :
    readFences sampleOpening (brokenLines (appendReturns [] value?)) =
      ([], brokenLines (appendReturns [] value?)) := by
  refine Markdown.readFences_of_none ?_
  cases value? with
  | none => exact Markdown.readFence_eq_none (by decide) []
  | some value =>
    have hline (s : Text) : Text.trimEnd ('*' :: s) = '*' :: Text.trimEnd s := Text.trimEnd_cons (by decide) s
    obtain ⟨s, hs⟩ : ∃ s, appendReturns [] (some value) = '*' :: s := ⟨_, congrArg (· ++ "\n\n".toList) (hline _)⟩
    rw [hs, Markdown.brokenLines_cons (by decide) (by decide)]
    cases brokenLines s with
    | nil => exact Markdown.readFence_eq_none (by decide) []
    | cons line lines => exact Markdown.readFence_eq_none (fun he => absurd (List.cons.inj he).1 (by decide)) lines

/-! ## Reading back -/

/-- A sample that fits is read, and the reading goes on behind it. -/
theorem readFences_sample {code : Text} (h : FitsFence code) (rest : Text) :
    readFences sampleOpening (brokenLines (appendSample [] code ++ rest)) =
      (code :: (readFences sampleOpening (brokenLines rest)).1, (readFences sampleOpening (brokenLines rest)).2) := by
  rw [brokenLines_sample]
  exact Markdown.readFences_of_fits h (brokenLines_closing rest) (by decide) ⟨sampleOpening, ['\n']⟩

/-- The samples are read back if all of them fit, and only then; nothing behind them is taken for one. -/
theorem readFences_samples_iff (samples : List Text) (value? : Option ReturnDoc) :
    readFences sampleOpening (brokenLines (samples.flatMap (appendSample []) ++ appendReturns [] value?)) =
        (samples, brokenLines (appendReturns [] value?)) ↔
      ∀ code ∈ samples, FitsFence code := by
  induction samples with
  | nil => exact iff_of_true (readFences_returns value?) fun _ h => absurd h List.not_mem_nil
  | cons code samples ih =>
    rw [List.flatMap_cons, List.append_assoc, List.forall_mem_cons, ← ih]
    constructor
    · intro hread
      have hfits : FitsFence code := by
        rw [brokenLines_sample] at hread
        exact Markdown.fitsFence_of_readFences ⟨sampleOpening, ['\n']⟩ (brokenLines_closing _) (by decide) hread
      rw [readFences_sample hfits] at hread
      obtain ⟨hsamples, hlast⟩ := Prod.mk.inj hread
      exact ⟨hfits, Prod.ext (List.cons.inj hsamples).2 hlast⟩
    · rintro ⟨hfits, hread⟩
      rw [readFences_sample hfits, hread]

/-- The section of an entry is what stands in front of its samples, their heading, and the samples with what is said
about the returned value. -/
theorem appendEntry_eq_samples (document name : Text) (e : Entry) :
    appendEntry document name e =
      document ++ sectionFront name e ++ samplesHeading e.samples ++ samplesAndReturns e := by
  rw [appendEntry_eq, appendEntry_eq_parts, samplesHeading, samplesAndReturns]
  by_cases hempty : e.samples = []
  · rw [hempty, if_pos rfl]
    simp [sectionFront, appendSamples]
  · rw [if_neg hempty, appendSamples_eq hempty]
    simp [sectionFront]

/-- **The samples of an entry are read back** from the section that is appended for it, in the order of their tags and
with nothing behind them but what is said about the returned value, exactly if no line of a sample closes a block and no
sample ends with a carriage return. -/
theorem readFences_appendEntry_iff (document name : Text) (e : Entry) :
    ∃ fences, appendEntry document name e = document ++ sectionFront name e ++ samplesHeading e.samples ++ fences ∧
      (readFences sampleOpening (brokenLines fences) = (e.samples, brokenLines (appendReturns [] e.returns?)) ↔
        ∀ code ∈ e.samples, (∀ line ∈ markdownLines code, closesFence line = false) ∧ code.getLast? ≠ some '\r') := by
  refine ⟨_, appendEntry_eq_samples document name e, (readFences_samples_iff e.samples e.returns?).trans ?_⟩
  exact forall₂_congr fun code _ => ⟨fun h => ⟨h.not_closes, h.not_return⟩, fun h => ⟨h.1, h.2⟩⟩

/-- A sample that is a line of three backticks ends its own fence, and a carriage return at the end of a sample is read
as a part of the line break behind it. -/
theorem readFences_appendEntry_not_verbatim :
    let closing : Entry := ⟨[.sample "```".toList], none, none⟩
    let returning : Entry := ⟨[.sample ['a', '\r']], none, none⟩
    (appendEntry [] ['f'] closing = "### f\n\n".toList ++ "### Example\n\n".toList ++ "```js\n```\n```\n\n".toList ∧
        (readFences sampleOpening (brokenLines "```js\n```\n```\n\n".toList)).1 ≠ closing.samples) ∧
      appendEntry [] ['f'] returning = "### f\n\n".toList ++ "### Example\n\n".toList ++ "```js\na\r\n```\n\n".toList ∧
        (readFences sampleOpening (brokenLines "```js\na\r\n```\n\n".toList)).1 ≠ returning.samples := by
  decide +kernel

end ApiReference.Document
