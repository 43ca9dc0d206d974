import ApiReference.Proofs.Html.Entity
import ApiReference.Proofs.Markdown.BlankLines

/-!
# Lines and white space of Markdown

What `toMarkdown` does to the lines of a description.

- Whatever the HTML is, no two blank lines follow each other in the Markdown and no white space is at its ends
  (`toMarkdown_never_two_blank_lines`).
- A text without `<` and `&` has no element and no entity, so only its white space changes (`toMarkdown_of_plain`): the
  lines that are not blank stay, and Markdown that is plain text is not changed again (`toMarkdown_plain`).
-/

namespace ApiReference.Html

open Markdown (lines isBlankLine spacedLines spacedByOne)
open Text (isWhiteSpace)
open Text.Rule (PassesAll)

/-! ## Blank lines -/

theorem exists_solid_of_endsSolid {s t : Text} (h : EndsSolid (s ++ t)) (ht : t ≠ []) :
    ∃ c ∈ t, isWhiteSpace c = false := by
  refine ⟨t.getLast ht, List.getLast_mem ht, h _ ?_⟩
  rw [List.getLast?_append_of_ne_nil s ht, List.getLast?_eq_some_getLast ht]

/-- Of two lines that follow each other one is not blank, if the text has no run of blank lines and no white space at
its ends. -/
theorem not_blank_of_consecutive {s : Text} (hrun : Markdown.NoBlankRun s)
    (hhead : ∀ c, s.head? = some c → isWhiteSpace c = false) (hlast : EndsSolid s)
    {front back : List Text} {l l' : Text} (h : lines s = front ++ l :: l' :: back) (hl : isBlankLine l = true) :
    isBlankLine l' = false := by
  rw [Bool.eq_false_iff]
  intro hl'
  have htext : List.intercalate ['\n'] (lines s) = s := Markdown.intercalate_splitAtChar '\n' s
  by_cases hfront : front = []
  · -- the first line is blank, but no white space is at the front
    rw [hfront, List.nil_append] at h
    have hnil := Markdown.eq_nil_of_lines (Markdown.afterBlankLine_of_head hhead) h hl
    exact absurd hnil (List.cons_ne_nil _ _)
  · rw [h, Markdown.intercalate_append _ hfront (List.cons_ne_nil _ _), List.intercalate_cons_cons] at htext
    cases back with
    | nil =>
      -- the last line is blank, but no white space is at the end
      have hsplit : (List.intercalate ['\n'] front ++ '\n' :: l) ++ '\n' :: l' = s := by simpa using htext
      obtain ⟨c, hc, hsolid⟩ := exists_solid_of_endsSolid (hsplit ▸ hlast) (List.cons_ne_nil _ _)
      rcases List.mem_cons.mp hc with rfl | hc
      · exact absurd hsolid (by decide)
      · rw [Markdown.isWhiteSpace_of_isBlankLine hl' c hc] at hsolid
        cases hsolid
    | cons next back =>
      refine hrun.not_isInfix_blankLines hl hl'
        ⟨List.intercalate ['\n'] front, List.intercalate ['\n'] (next :: back), ?_⟩
      rw [← htext, List.intercalate_cons_cons]
      simp

/-- **No two blank lines follow each other in Markdown**, and no white space is at its ends, whatever the HTML is. -/
theorem toMarkdown_never_two_blank_lines (s : Text) :
    (∀ c, (toMarkdown s).head? = some c → isWhiteSpace c = false) ∧
      (∀ c, (toMarkdown s).getLast? = some c → isWhiteSpace c = false) ∧
      (∀ a b, isBlankLine a = true → isBlankLine b = true → ¬ '\n' :: (a ++ '\n' :: (b ++ ['\n'])) <:+: toMarkdown s) ∧
      ∀ front l l' back, lines (toMarkdown s) = front ++ l :: l' :: back →
        isBlankLine l = true → isBlankLine l' = false := by
  have hrun := noBlankRun_toMarkdown s
  have hhead : ∀ c, (toMarkdown s).head? = some c → isWhiteSpace c = false := fun _ => Text.head_trim
  have hlast : ∀ c, (toMarkdown s).getLast? = some c → isWhiteSpace c = false := fun _ => Text.getLast_trim
  exact ⟨hhead, hlast, fun _ _ ha hb => hrun.not_isInfix_blankLines ha hb,
    fun _ _ _ _ h hl => not_blank_of_consecutive hrun hhead hlast h hl⟩

/-- Two paragraphs with blank lines between them: one is left. -/
theorem toMarkdown_never_two_blank_lines_paragraphs :
    let s := "<p>a</p>\n \n\t<p>b</p>".toList
    lines (toMarkdown s) = ["a".toList] ++ [] :: "\tb".toList :: [] ∧ isBlankLine [] = true ∧
      isBlankLine "\tb".toList = false := by
  intro s
  have hlines : lines (toMarkdown s) = ["a".toList] ++ [] :: "\tb".toList :: [] := by decide +kernel
  have hempty : isBlankLine [] = true := rfl
  exact ⟨hlines, hempty, (toMarkdown_never_two_blank_lines s).2.2.2 _ _ _ _ hlines hempty⟩

/-! ## Plain text -/

theorem rewriteElements_of_not_mem {s : Text} (h : '<' ∉ s) : rewriteElements s = s := by
  have hkeep : PassesAll elementRules s s := .of_not_mem beginsWith_bracket h
  rw [rewriteElements_eq_foldl, hkeep.foldl_eq]

theorem decode_of_not_mem {s : Text} (h : '&' ∉ s) : Entity.decode s = s := by
  have hkeep : PassesAll Entity.rules s s := .of_not_mem Entity.beginsWith_ampersand h
  rw [Entity.decode_eq_foldl, hkeep.foldl_eq]

/-- In plain text only white space changes. -/
theorem toMarkdown_of_plain {s : Text} (hless : '<' ∉ s) (hamp : '&' ∉ s) :
    toMarkdown s = Markdown.collapse (Text.trim s) := by
  rw [toMarkdown, rewriteElements_of_not_mem hless, decode_of_not_mem hamp, Markdown.trim_collapse]

/-- The lines of plain text that are not blank stay, with one blank line in front where there were several. -/
theorem spacedLines_toMarkdown {s : Text} (hless : '<' ∉ s) (hamp : '&' ∉ s) :
    spacedLines (lines (toMarkdown s)) = spacedByOne (spacedLines (lines (Text.trim s))) := by
  have hfront : Markdown.afterBlankLine? (Text.trim s) = none := Markdown.afterBlankLine_of_head fun _ => Text.head_trim
  rw [toMarkdown_of_plain hless hamp, Markdown.spacedLines_collapse hfront]

theorem toMarkdown_toMarkdown {s : Text} (hless : '<' ∉ toMarkdown s) (hamp : '&' ∉ toMarkdown s) :
    toMarkdown (toMarkdown s) = toMarkdown s := by
  have htrim : Text.trim (toMarkdown s) = toMarkdown s := Text.trim_trim _
  rw [toMarkdown_of_plain hless hamp, htrim, Markdown.collapse_of_noBlankRun (noBlankRun_toMarkdown s)]

/-- **Of plain text only outer white space and surplus blank lines are removed**: the lines that are not blank stay as
they are and in order, and between two of them one blank line is left where there were several. So Markdown that is
plain text is not changed again. -/
theorem toMarkdown_plain (s : Text) :
    ('<' ∉ s → '&' ∉ s →
      ((lines (toMarkdown s)).filter fun l => !isBlankLine l) =
          ((lines (Text.trim s)).filter fun l => !isBlankLine l) ∧
        spacedLines (lines (toMarkdown s)) = (spacedLines (lines (Text.trim s))).map fun (n, l) => (min n 1, l)) ∧
      ('<' ∉ toMarkdown s → '&' ∉ toMarkdown s → toMarkdown (toMarkdown s) = toMarkdown s) := by
  refine ⟨fun hless hamp => ?_, toMarkdown_toMarkdown⟩
  have hspaced := spacedLines_toMarkdown hless hamp
  refine ⟨?_, hspaced⟩
  rw [← Markdown.map_snd_spacedLines, ← Markdown.map_snd_spacedLines, hspaced, Markdown.map_snd_spacedByOne]

/-- Three blank lines between two lines, and one blank line with a tab before a third. -/
theorem toMarkdown_plain_blank_lines :
    let s := " a \n\n \n\n  b\n\t\nc\n".toList
    '<' ∉ s ∧ '&' ∉ s ∧
      spacedLines (lines (Text.trim s)) = [(0, "a ".toList), (3, "  b".toList), (1, "c".toList)] ∧
      spacedLines (lines (toMarkdown s)) = [(0, "a ".toList), (1, "  b".toList), (1, "c".toList)] := by
  intro s
  have hless : '<' ∉ s := by decide
  have hamp : '&' ∉ s := by decide
  have htrim : spacedLines (lines (Text.trim s)) = [(0, "a ".toList), (3, "  b".toList), (1, "c".toList)] := by
    decide +kernel
  refine ⟨hless, hamp, htrim, ?_⟩
  rw [((toMarkdown_plain s).1 hless hamp).2, htrim]
  rfl

end ApiReference.Html
