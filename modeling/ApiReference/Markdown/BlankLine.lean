import ApiReference.Text.Rule

/-!
# Blank lines

A line of spaces and tabs only is blank. `collapse` leaves one empty line wherever two or more blank lines follow
each other.

- `afterBlankLine?` and `afterBlankLines?` read one blank line, or as many as there are, with their newlines;
- `blankRun` is the rule that writes two newlines for a newline and the blank lines behind it.
-/

namespace ApiReference.Markdown

/-- The text behind the blank line it begins with: spaces and tabs up to a newline. -/
def afterBlankLine? : Text → Option Text
  | '\n' :: s => some s
  | ' ' :: s => afterBlankLine? s
  | '\t' :: s => afterBlankLine? s
  | _ => none

/-- The text behind all the blank lines it begins with, if there is one. -/
def afterBlankLines? : Text → Option Text
  | '\n' :: s => some ((afterBlankLines? s).getD s)
  | ' ' :: s => afterBlankLines? s
  | '\t' :: s => afterBlankLines? s
  | _ => none

theorem length_afterBlankLine_lt {s rest : Text} (h : afterBlankLine? s = some rest) : rest.length < s.length := by
  fun_induction afterBlankLine? s with
  | case1 s => simp_all
  | case2 s ih => have := ih h; simp only [List.length_cons]; omega
  | case3 s ih => have := ih h; simp only [List.length_cons]; omega
  | case4 => simp at h

theorem length_afterBlankLines_lt {s rest : Text} (h : afterBlankLines? s = some rest) :
    rest.length < s.length := by
  fun_induction afterBlankLines? s generalizing rest with
  | case1 s ih =>
    cases hs : afterBlankLines? s with
    | none => simp_all
    | some r =>
      have := ih hs
      obtain rfl : r = rest := by simpa [hs] using h
      simp only [List.length_cons]
      omega
  | case2 s ih => have := ih h; simp only [List.length_cons]; omega
  | case3 s ih => have := ih h; simp only [List.length_cons]; omega
  | case4 => simp at h

/-- The text behind a newline and two or more blank lines. -/
def afterBlankRun? : Text → Option Text
  | '\n' :: s => (afterBlankLine? s).bind afterBlankLines?
  | _ => none

theorem length_afterBlankRun_lt {s rest : Text} (h : afterBlankRun? s = some rest) : rest.length < s.length := by
  fun_cases afterBlankRun? s with
  | case1 s =>
    obtain ⟨s₁, h₁, h₂⟩ := Option.bind_eq_some_iff.1 h
    have := length_afterBlankLine_lt h₁
    have := length_afterBlankLines_lt h₂
    simp only [List.length_cons]
    omega
  | case2 => simp_all [afterBlankRun?]

/-- A newline and two or more blank lines behind it become two newlines. -/
def blankRun : Text.Rule where
  atFront? s := (afterBlankRun? s).map ("\n\n".toList, ·)
  shorter h := by
    simp only [Option.map_eq_some_iff, Prod.mk.injEq] at h
    obtain ⟨r, hr, -, rfl⟩ := h
    exact length_afterBlankRun_lt hr

/-- The text with one empty line wherever two or more blank lines follow each other. -/
def collapse (s : Text) : Text :=
  blankRun.rewrite s

end ApiReference.Markdown
