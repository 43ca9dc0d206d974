import ApiReference.Proofs.Html.Spacing
import ApiReference.Proofs.Markdown.Lines
import ApiReference.Proofs.Text.Reading

/-!
# Blank lines, line by line

`collapse` is written in terms of newlines and what follows them. Here it is told by the lines of a text.

- A run that is replaced is a newline and two or more blank lines with theirs (`exists_of_afterBlankRun`).
- The lines that are not blank stay, and where blank lines stand in front of one of them one is left
  (`spacedLines_collapse`). The first line is the exception, since no newline stands in front of it.
- Nothing is read over a character that is no white space (`collapse_append_cons`), so that it does not matter whether
  the white space at the ends is removed before or after (`trim_collapse`).
-/

namespace ApiReference.Markdown

open Text (isWhiteSpace trimStart trimEnd trim)

/-! ## Lines -/

/-- The lines of a text. -/
def lines (s : Text) : List Text :=
  splitAtChar '\n' s

/-- Whether a line holds spaces and tabs only. -/
def isBlankLine (l : Text) : Bool :=
  l.all fun c => c = ' ' || c = '\t'

/-- Lines with the numbers of blank lines in front of them, behind `n` more blank lines. -/
def behindBlankLines (n : Nat) : List (Nat × Text) → List (Nat × Text)
  | [] => []
  | (k, l) :: spaced => (k + n, l) :: spaced

/-- The lines that are not blank, each with the number of blank lines directly in front of it. -/
def spacedLines : List Text → List (Nat × Text)
  | [] => []
  | l :: ls => if isBlankLine l then behindBlankLines 1 (spacedLines ls) else (0, l) :: spacedLines ls

/-- Lines with one blank line in front of them where there are several. -/
def spacedByOne (spaced : List (Nat × Text)) : List (Nat × Text) :=
  spaced.map fun (n, l) => (min n 1, l)

theorem map_snd_behindBlankLines (n : Nat) (spaced : List (Nat × Text)) :
    (behindBlankLines n spaced).map Prod.snd = spaced.map Prod.snd := by
  cases spaced <;> rfl

/-- The lines that are not blank, without the numbers. -/
theorem map_snd_spacedLines (ls : List Text) :
    (spacedLines ls).map Prod.snd = ls.filter fun l => !isBlankLine l := by
  induction ls with
  | nil => rfl
  | cons l ls ih =>
    rw [spacedLines]
    by_cases hl : isBlankLine l = true
    · rw [if_pos hl, map_snd_behindBlankLines, ih, List.filter_cons_of_neg (by simp [hl])]
    · rw [if_neg hl, List.map_cons, ih, List.filter_cons_of_pos (by simp [hl])]

theorem map_snd_spacedByOne (spaced : List (Nat × Text)) :
    (spacedByOne spaced).map Prod.snd = spaced.map Prod.snd := by
  rw [spacedByOne, List.map_map]
  rfl

theorem newline_not_mem_of_isBlankLine {l : Text} (h : isBlankLine l = true) : '\n' ∉ l := by
  intro hm
  exact absurd (List.all_eq_true.mp h _ hm) (by decide)

theorem isWhiteSpace_of_isBlankLine {l : Text} (h : isBlankLine l = true) : ∀ c ∈ l, isWhiteSpace c = true := by
  intro c hc
  have hblank := List.all_eq_true.mp h c hc
  simp only [Bool.or_eq_true, decide_eq_true_eq] at hblank
  rcases hblank with rfl | rfl <;> decide

/-! ## Reading blank lines -/

theorem exists_of_afterBlankLine {s rest : Text} (h : afterBlankLine? s = some rest) :
    ∃ l, isBlankLine l = true ∧ s = l ++ '\n' :: rest := by
  fun_induction afterBlankLine? s with
  | case1 s => exact ⟨[], rfl, by rw [Option.some.inj h, List.nil_append]⟩
  | case2 s ih =>
    obtain ⟨l, hl, rfl⟩ := ih h
    exact ⟨' ' :: l, by simpa [isBlankLine] using hl, rfl⟩
  | case3 s ih =>
    obtain ⟨l, hl, rfl⟩ := ih h
    exact ⟨'\t' :: l, by simpa [isBlankLine] using hl, rfl⟩
  | case4 => cases h

theorem afterBlankLine_of_isBlankLine {l : Text} (hl : isBlankLine l = true) (rest : Text) :
    afterBlankLine? (l ++ '\n' :: rest) = some rest := by
  induction l with
  | nil => rfl
  | cons c l ih =>
    rw [isBlankLine, List.all_cons, Bool.and_eq_true, Bool.or_eq_true, decide_eq_true_eq, decide_eq_true_eq] at hl
    rcases hl with ⟨rfl | rfl, hl⟩
    · exact ih hl
    · exact ih hl

/-- A blank or a tab in front of blank lines belongs to the first of them. -/
theorem exists_cons_blankLines {c : Char} (hc : c = ' ' ∨ c = '\t') {s rest : Text}
    (h : ∃ ls : List Text, ls ≠ [] ∧ (∀ l ∈ ls, isBlankLine l = true) ∧ s = ls.flatMap (· ++ ['\n']) ++ rest) :
    ∃ ls : List Text, ls ≠ [] ∧ (∀ l ∈ ls, isBlankLine l = true) ∧ c :: s = ls.flatMap (· ++ ['\n']) ++ rest := by
  obtain ⟨ls, hne, hls, rfl⟩ := h
  cases ls with
  | nil => exact absurd rfl hne
  | cons l ls =>
    obtain ⟨hl, hls⟩ := List.forall_mem_cons.mp hls
    have hcl : isBlankLine (c :: l) = true := by rcases hc with rfl | rfl <;> simpa [isBlankLine] using hl
    exact ⟨(c :: l) :: ls, List.cons_ne_nil _ _, List.forall_mem_cons.mpr ⟨hcl, hls⟩, rfl⟩

/-- What is read of blank lines are blank lines with their newlines. -/
theorem exists_of_afterBlankLines {s rest : Text} (h : afterBlankLines? s = some rest) :
    ∃ ls : List Text, ls ≠ [] ∧ (∀ l ∈ ls, isBlankLine l = true) ∧ s = ls.flatMap (· ++ ['\n']) ++ rest := by
  fun_induction afterBlankLines? s with
  | case1 s ih =>
    cases hs : afterBlankLines? s with
    | none =>
      obtain rfl : s = rest := by simpa [hs] using h
      exact ⟨[[]], List.cons_ne_nil _ _, by simp [isBlankLine], rfl⟩
    | some last =>
      obtain rfl : last = rest := by simpa [hs] using h
      obtain ⟨ls, -, hls, he⟩ := ih hs
      have hempty : isBlankLine [] = true := rfl
      exact ⟨[] :: ls, List.cons_ne_nil _ _, List.forall_mem_cons.mpr ⟨hempty, hls⟩, by rw [he]; rfl⟩
  | case2 s ih => exact exists_cons_blankLines (.inl rfl) (ih h)
  | case3 s ih => exact exists_cons_blankLines (.inr rfl) (ih h)
  | case4 => cases h

/-- A run is a newline and blank lines with theirs, and no blank line follows. -/
theorem exists_of_afterBlankRun {s rest : Text} (h : afterBlankRun? s = some rest) :
    ∃ ls : List Text, ls ≠ [] ∧ (∀ l ∈ ls, isBlankLine l = true) ∧
      s = '\n' :: (ls.flatMap (· ++ ['\n']) ++ rest) ∧ afterBlankLine? rest = none := by
  fun_cases afterBlankRun? s with
  | case1 s =>
    obtain ⟨next, hline, hlines⟩ := Option.bind_eq_some_iff.mp h
    obtain ⟨l, hl, rfl⟩ := exists_of_afterBlankLine hline
    obtain ⟨ls, -, hls, rfl⟩ := exists_of_afterBlankLines hlines
    refine ⟨l :: ls, List.cons_ne_nil _ _, List.forall_mem_cons.mpr ⟨hl, hls⟩, ?_,
      afterBlankLine_of_afterBlankLines hlines⟩
    simp
  | case2 s hs =>
    rw [afterBlankRun?] at h
    · cases h
    · exact hs

/-- What the rule for runs reads and writes. -/
theorem eq_of_blankRun {s out rest : Text} (h : blankRun.atFront? s = some (out, rest)) :
    out = ['\n', '\n'] ∧ afterBlankRun? s = some rest := by
  obtain ⟨last, hlast, he⟩ := Option.map_eq_some_iff.mp h
  obtain ⟨rfl, rfl⟩ := Prod.mk.inj he
  exact ⟨rfl, hlast⟩

theorem beginsWith_newline : blankRun.BeginsWith '\n' := by
  intro c s hc
  show (afterBlankRun? (c :: s)).map _ = none
  rw [afterBlankRun_of_ne hc, Option.map_none]

/-! ## Lines that are kept -/

theorem lines_newline (s : Text) : lines ('\n' :: s) = [] :: lines s := by
  rw [lines, splitAtChar, if_pos rfl, lines]

/-- Any other character belongs to the first line. -/
theorem lines_cons {c : Char} (hc : c ≠ '\n') {s l : Text} {ls : List Text} (h : lines s = l :: ls) :
    lines (c :: s) = (c :: l) :: ls := by
  rw [lines, splitAtChar, if_neg hc, ← lines, h]
  rfl

theorem exists_lines_eq_cons (s : Text) : ∃ l ls, lines s = l :: ls :=
  List.exists_cons_of_ne_nil (splitAtChar_ne_nil '\n' s)

theorem lines_blankLines {ls : List Text} (h : ∀ l ∈ ls, isBlankLine l = true) (rest : Text) :
    lines (ls.flatMap (· ++ ['\n']) ++ rest) = ls ++ lines rest := by
  induction ls with
  | nil => rfl
  | cons l ls ih =>
    obtain ⟨hl, hls⟩ := List.forall_mem_cons.mp h
    rw [List.flatMap_cons, List.append_assoc, List.append_assoc, List.singleton_append, lines, splitAtChar_append,
      splitAtChar_of_not_mem (newline_not_mem_of_isBlankLine hl), List.singleton_append]
    exact congrArg (l :: ·) (ih hls)

/-- A first line that is blank is the only one where no blank line is read. -/
theorem eq_nil_of_lines {s l : Text} {ls : List Text} (h : afterBlankLine? s = none) (hs : lines s = l :: ls)
    (hl : isBlankLine l = true) : ls = [] := by
  cases ls with
  | nil => rfl
  | cons l' ls =>
    have htext := intercalate_splitAtChar '\n' s
    rw [← lines, hs, List.intercalate_cons_cons, List.append_assoc, List.singleton_append] at htext
    rw [← htext, afterBlankLine_of_isBlankLine hl] at h
    cases h

/-! ## Blank lines that are left -/

theorem spacedLines_append {ls : List Text} (h : ∀ l ∈ ls, isBlankLine l = true) (ls' : List Text) :
    spacedLines (ls ++ ls') = behindBlankLines ls.length (spacedLines ls') := by
  induction ls with
  | nil => cases hs : spacedLines ls' <;> simp [behindBlankLines, hs]
  | cons l ls ih =>
    obtain ⟨hl, hls⟩ := List.forall_mem_cons.mp h
    rw [List.cons_append, spacedLines, if_pos hl, ih hls]
    cases spacedLines ls' with
    | nil => rfl
    | cons p spaced => simp [behindBlankLines, Nat.add_assoc]

/-- One blank line is left of those in front of lines that have none in front of the first. -/
theorem spacedByOne_behindBlankLines {spaced : List (Nat × Text)} (h : ∀ p ∈ spaced.head?, p.1 = 0) {n : Nat}
    (hn : 0 < n) : spacedByOne (behindBlankLines n spaced) = behindBlankLines 1 (spacedByOne spaced) := by
  cases spaced with
  | nil => rfl
  | cons p spaced =>
    obtain ⟨k, l⟩ := p
    obtain rfl : k = 0 := h (k, l) rfl
    simp only [behindBlankLines, spacedByOne, List.map_cons, Nat.zero_add, Nat.zero_min, Nat.min_eq_right hn]

/-- Where no blank line is read, none stands in front of the first line that is not blank. -/
theorem fst_head_spacedLines {s : Text} (h : afterBlankLine? s = none) :
    ∀ p ∈ (spacedLines (lines s)).head?, p.1 = 0 := by
  obtain ⟨l, ls, hs⟩ := exists_lines_eq_cons s
  rw [hs, spacedLines]
  by_cases hl : isBlankLine l = true
  · rw [if_pos hl, eq_nil_of_lines h hs hl]
    simp [spacedLines, behindBlankLines]
  · rw [if_neg hl]
    simp

/-- The lines of `t` are those of `s` with one blank line for several, but for the first line, which is the same. -/
def Squeezes (s t : Text) : Prop :=
  ∃ l ls ls', lines s = l :: ls ∧ lines t = l :: ls' ∧ spacedLines ls' = spacedByOne (spacedLines ls)

/-- Where no blank line is read, the first line is no exception. -/
theorem Squeezes.spacedLines_eq {s t : Text} (h : Squeezes s t) (hs : afterBlankLine? s = none) :
    spacedLines (lines t) = spacedByOne (spacedLines (lines s)) := by
  obtain ⟨l, ls, ls', hl, hl', hspaced⟩ := h
  rw [hl, hl', spacedLines, spacedLines, hspaced]
  by_cases hblank : isBlankLine l = true
  · rw [if_pos hblank, if_pos hblank, eq_nil_of_lines hs hl hblank]
    rfl
  · rw [if_neg hblank, if_neg hblank]
    rfl

/-- A newline is kept where at most one blank line follows. -/
theorem Squeezes.newline {s t : Text} (h : Squeezes s t) (hrun : afterBlankRun? ('\n' :: s) = none) :
    Squeezes ('\n' :: s) ('\n' :: t) := by
  refine ⟨[], lines s, lines t, lines_newline s, lines_newline t, ?_⟩
  cases hline : afterBlankLine? s with
  | none => exact h.spacedLines_eq hline
  | some rest =>
    obtain ⟨blank, hblank, rfl⟩ := exists_of_afterBlankLine hline
    have hrest := (afterBlankRun_eq_none_iff _).mp hrun rest hline
    have hlines : lines (blank ++ '\n' :: rest) = blank :: lines rest := by
      simpa using @lines_blankLines [blank] (by simpa using hblank) rest
    obtain ⟨l, ls, ls', hl, hl', hspaced⟩ := h
    obtain ⟨rfl, rfl⟩ := List.cons.inj (hlines.symm.trans hl)
    rw [hlines, hl', spacedLines, spacedLines, if_pos hblank, if_pos hblank, hspaced,
      spacedByOne_behindBlankLines (fst_head_spacedLines hrest) Nat.one_pos]

/-- Two newlines are written for a run. -/
theorem Squeezes.run {s t : Text} (h : Squeezes s t) (hs : afterBlankLine? s = none) {ls : List Text} (hne : ls ≠ [])
    (hls : ∀ l ∈ ls, isBlankLine l = true) :
    Squeezes ('\n' :: (ls.flatMap (· ++ ['\n']) ++ s)) ('\n' :: '\n' :: t) := by
  refine ⟨[], ls ++ lines s, [] :: lines t, ?_, ?_, ?_⟩
  · rw [lines_newline, lines_blankLines hls]
  · rw [lines_newline, lines_newline]
  · have hempty : isBlankLine [] = true := rfl
    rw [spacedLines, if_pos hempty, h.spacedLines_eq hs, spacedLines_append hls,
      spacedByOne_behindBlankLines (fst_head_spacedLines hs) (List.length_pos_iff.mpr hne)]

theorem squeezes_collapse (s : Text) : Squeezes s (collapse s) := by
  induction s using blankRun.rewrite_induction with
  | nil => exact ⟨[], [], [], rfl, by rw [collapse, Text.Rule.rewrite_nil]; rfl, rfl⟩
  | apply s out rest hread ih =>
    obtain ⟨-, hrun⟩ := eq_of_blankRun hread
    rw [collapse_of_some hrun]
    obtain ⟨ls, hne, hls, rfl, hrest⟩ := exists_of_afterBlankRun hrun
    exact ih.run hrest hne hls
  | keep c s hnone ih =>
    have hrun : afterBlankRun? (c :: s) = none := Option.map_eq_none_iff.mp hnone
    rw [collapse_of_none hrun]
    by_cases hc : c = '\n'
    · subst hc
      exact ih.newline hrun
    · obtain ⟨l, ls, ls', hl, hl', hspaced⟩ := ih
      exact ⟨c :: l, ls, ls', lines_cons hc hl, lines_cons hc hl', hspaced⟩

/-- **Blank lines are collapsed line by line**: the lines that are not blank stay as they are and in order, and one
blank line is left in front of a line that had several. -/
theorem spacedLines_collapse {s : Text} (h : afterBlankLine? s = none) :
    spacedLines (lines (collapse s)) = spacedByOne (spacedLines (lines s)) :=
  (squeezes_collapse s).spacedLines_eq h

/-! ## Texts with no run -/

/-- Where no run is, nothing is collapsed. -/
theorem collapse_of_noBlankRun {s : Text} (h : NoBlankRun s) : collapse s = s := by
  induction s with
  | nil => exact Text.Rule.rewrite_nil blankRun
  | cons c s ih =>
    rw [collapse_of_none (h _ (List.suffix_refl _)), ih fun t ht => h t (ht.trans (List.suffix_cons c s))]

/-- Three newlines with only spaces and tabs between them are nowhere in such a text. -/
theorem NoBlankRun.not_isInfix_blankLines {s a b : Text} (h : NoBlankRun s) (ha : isBlankLine a = true)
    (hb : isBlankLine b = true) : ¬ '\n' :: (a ++ '\n' :: (b ++ ['\n'])) <:+: s := by
  intro hs
  have hrun := (afterBlankRun_eq_none_iff _).mp (h.of_isInfix hs _ (List.suffix_refl _))
  have hnone := hrun _ (afterBlankLine_of_isBlankLine ha _)
  rw [afterBlankLine_of_isBlankLine hb] at hnone
  cases hnone

/-! ## White space at the ends -/

theorem collapse_nil : collapse [] = [] :=
  Text.Rule.rewrite_nil blankRun

section Solid

variable {c : Char} (hc : isWhiteSpace c = false)

include hc

theorem ne_of_solid {d : Char} (hd : isWhiteSpace d = true) : c ≠ d := by
  rintro rfl
  exact absurd (hc.symm.trans hd) Bool.false_ne_true

/-- What is no white space is no part of a blank line. -/
theorem afterBlankLine_of_solid (t : Text) : afterBlankLine? (c :: t) = none := by
  have hnewline : c ≠ '\n' := ne_of_solid hc (by decide)
  have hspace : c ≠ ' ' := ne_of_solid hc (by decide)
  have htab : c ≠ '\t' := ne_of_solid hc (by decide)
  simp [afterBlankLine?, hnewline, hspace, htab]

theorem afterBlankLine_append_cons (s t : Text) :
    afterBlankLine? (s ++ c :: t) = (afterBlankLine? s).map (· ++ c :: t) := by
  fun_induction afterBlankLine? s with
  | case1 s => rfl
  | case2 s ih => exact ih
  | case3 s ih => exact ih
  | case4 s h₁ h₂ h₃ =>
    cases s with
    | nil => exact afterBlankLine_of_solid hc t
    | cons d s =>
      rw [List.cons_append, afterBlankLine?, Option.map_none]
      · exact fun u e => h₁ s (by rw [(List.cons.inj e).1])
      · exact fun u e => h₂ s (by rw [(List.cons.inj e).1])
      · exact fun u e => h₃ s (by rw [(List.cons.inj e).1])

theorem afterBlankLines_append_cons (s t : Text) :
    afterBlankLines? (s ++ c :: t) = (afterBlankLines? s).map (· ++ c :: t) := by
  fun_induction afterBlankLines? s with
  | case1 s ih =>
    rw [List.cons_append, afterBlankLines?, ih]
    cases afterBlankLines? s <;> rfl
  | case2 s ih => exact ih
  | case3 s ih => exact ih
  | case4 s h₁ h₂ h₃ =>
    rw [Option.map_none, afterBlankLines_eq_none_iff, afterBlankLine_append_cons hc]
    rw [afterBlankLine?]
    · rfl
    · exact h₁
    · exact h₂
    · exact h₃

theorem afterBlankRun_append_cons (s t : Text) :
    afterBlankRun? (s ++ c :: t) = (afterBlankRun? s).map (· ++ c :: t) := by
  fun_cases afterBlankRun? s with
  | case1 s =>
    rw [List.cons_append, afterBlankRun?, afterBlankLine_append_cons hc]
    cases afterBlankLine? s with
    | none => rfl
    | some rest => exact afterBlankLines_append_cons hc rest t
  | case2 s hs =>
    cases s with
    | nil => exact afterBlankRun_of_ne (ne_of_solid hc (by decide)) t
    | cons d s =>
      have hd : d ≠ '\n' := fun e => hs s (by rw [e])
      rw [List.cons_append, afterBlankRun_of_ne hd, Option.map_none]

/-- Nothing is collapsed over a character that is no white space. -/
theorem collapse_append_cons (s t : Text) : collapse (s ++ c :: t) = collapse s ++ c :: collapse t := by
  have hmark : collapse (s ++ c :: t) = collapse s ++ collapse (c :: t) := by
    refine Text.Rule.rewrite_append_cons (fun d s t => ?_) s t
    show (afterBlankRun? _).map _ = ((afterBlankRun? _).map _).map _
    rw [afterBlankRun_append_cons hc, Option.map_map, Option.map_map]
    rfl
  rw [hmark, collapse_of_none (afterBlankRun_of_ne (ne_of_solid hc (by decide)) t)]

end Solid

/-- No blank line is at the front of a text that begins with no white space. -/
theorem afterBlankLine_of_head {s : Text} (h : ∀ c, s.head? = some c → isWhiteSpace c = false) :
    afterBlankLine? s = none := by
  cases s with
  | nil => rfl
  | cons c s => exact afterBlankLine_of_solid (h c rfl) s

theorem isWhiteSpace_collapse {s : Text} (h : ∀ c ∈ s, isWhiteSpace c = true) :
    ∀ c ∈ collapse s, isWhiteSpace c = true := by
  refine Text.Rule.forall_mem_rewrite (fun s out rest hread hs => ?_) h
  obtain ⟨rfl, hrun⟩ := eq_of_blankRun hread
  obtain ⟨ls, -, -, rfl, -⟩ := exists_of_afterBlankRun hrun
  exact ⟨List.all_eq_true.mp (by decide), fun c hc => hs c (List.mem_cons_of_mem _ (List.mem_append_right _ hc))⟩

/-- White space at the front stays apart. -/
theorem trimStart_collapse_append {space s : Text} (hspace : ∀ c ∈ space, isWhiteSpace c = true)
    (hs : ∀ c, s.head? = some c → isWhiteSpace c = false) : trimStart (collapse (space ++ s)) = collapse s := by
  cases s with
  | nil =>
    rw [List.append_nil, collapse_nil, trimStart, List.dropWhile_eq_nil_iff]
    exact isWhiteSpace_collapse hspace
  | cons c s =>
    have hc : isWhiteSpace c = false := hs c rfl
    have hkeep : collapse (c :: s) = c :: collapse s := by simpa [collapse_nil] using collapse_append_cons hc [] s
    rw [collapse_append_cons hc, Text.trimStart_space (isWhiteSpace_collapse hspace), hkeep]
    exact Text.trimStart_eq_self fun d hd => Option.some.inj hd ▸ hc

/-- White space at the end stays apart. -/
theorem trimEnd_collapse_append {space s : Text} (hspace : ∀ c ∈ space, isWhiteSpace c = true)
    (hs : Html.EndsSolid s) : trimEnd (collapse (s ++ space)) = collapse s := by
  rcases List.eq_nil_or_concat s with rfl | ⟨s, c, rfl⟩
  · rw [List.nil_append, collapse_nil]
    exact Text.trimEnd_space (isWhiteSpace_collapse hspace) []
  · rw [List.concat_eq_append] at hs ⊢
    have hc : isWhiteSpace c = false := hs c (by simp)
    have hend : Html.EndsSolid (collapse s ++ [c]) := fun d hd => by
      rw [List.getLast?_concat] at hd
      exact Option.some.inj hd ▸ hc
    have hkeep : collapse (s ++ [c]) = collapse s ++ [c] := by rw [collapse_append_cons hc, collapse_nil]
    rw [hkeep, List.append_assoc, List.singleton_append, collapse_append_cons hc, ← List.singleton_append,
      ← List.append_assoc, Text.trimEnd_space (isWhiteSpace_collapse hspace), Text.trimEnd_eq_self hend]

theorem trimStart_collapse (s : Text) : trimStart (collapse s) = collapse (trimStart s) := by
  obtain ⟨space, hs, hspace⟩ := Text.exists_eq_append_trimStart s
  calc trimStart (collapse s) = trimStart (collapse (space ++ trimStart s)) := by rw [← hs]
    _ = collapse (trimStart s) := trimStart_collapse_append hspace fun _ => Text.head_trimStart

theorem trimEnd_collapse (s : Text) : trimEnd (collapse s) = collapse (trimEnd s) := by
  obtain ⟨space, hs, hend, hspace⟩ := Html.exists_eq_trimEnd_append s
  calc trimEnd (collapse s) = trimEnd (collapse (trimEnd s ++ space)) := by rw [← hs]
    _ = collapse (trimEnd s) := trimEnd_collapse_append hspace hend

/-- **Outer white space may be removed before collapsing** as well as after. -/
theorem trim_collapse (s : Text) : trim (collapse s) = collapse (trim s) := by
  rw [trim, trimStart_collapse, trimEnd_collapse, trim]

end ApiReference.Markdown
