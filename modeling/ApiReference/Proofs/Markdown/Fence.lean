import ApiReference.Markdown.Fence
import ApiReference.Proofs.Markdown.Lines

/-!
# What is read of fenced blocks

A text stands between fences with a newline behind it. This newline ends the last line of the text (`EndsWithLine`),
together with a carriage return in front of it if there is one (`exists_brokenLines_newline`). So the text is read back
as it is exactly if it does not end with a carriage return and no line of it closes the block (`FitsFence`): then its
lines are read up to the one behind it (`untilClosed_of_fits`), and else fewer of them, or a text without the carriage
return (`fitsFence_of_untilClosed`).
-/

namespace ApiReference.Markdown

/-! ## Lines and line breaks -/

/-- A line with its line break. -/
def Line.full (line : Line) : Text :=
  line.text ++ line.lineBreak

theorem brokenLines_cons {c : Char} (hr : c ≠ '\r') (hn : c ≠ '\n') (s : Text) :
    brokenLines (c :: s) = extendFirstLine c (brokenLines s) := by
  rw [brokenLines]
  · exact fun t e _ => hr e
  · exact hn
  · exact hr

theorem map_text_extendFirstLine (c : Char) (lines : List Line) :
    (extendFirstLine c lines).map Line.text = extendFirst c (lines.map Line.text) := by
  cases lines <;> rfl

theorem head_ne_newline {s : Text} (h : ∀ t, s ≠ '\n' :: t) : s.head? ≠ some '\n' := by
  intro he
  obtain ⟨t, rfl⟩ := List.head?_eq_some_iff.mp he
  exact h t rfl

/-- Without their breaks they are the lines that Markdown counts. -/
theorem map_text_brokenLines (s : Text) : (brokenLines s).map Line.text = markdownLines s := by
  fun_induction brokenLines s with
  | case1 => rfl
  | case2 s ih => rw [List.map_cons, ih, markdownLines]
  | case3 s ih => rw [List.map_cons, ih, markdownLines]
  | case4 s h ih =>
    rw [List.map_cons, ih, markdownLines_return (head_ne_newline h)]
  | case5 c s h hn hr ih => rw [map_text_extendFirstLine, ih, markdownLines_cons hr hn]

theorem linesText_concat (front : List Line) (line : Line) :
    linesText (front ++ [line]) = front.flatMap Line.full ++ line.text := by
  induction front with
  | nil => rfl
  | cons first front ih =>
    rw [List.cons_append, linesText, ih, List.flatMap_cons, Line.full, List.append_assoc, List.append_assoc,
      List.append_assoc]
    exact List.append_ne_nil_of_right_ne_nil front (List.cons_ne_nil _ _)

theorem flatMap_full_concat (front : List Line) (line : Line) :
    (front ++ [line]).flatMap Line.full = linesText (front ++ [line]) ++ line.lineBreak := by
  rw [linesText_concat, List.flatMap_append, List.flatMap_singleton, Line.full, List.append_assoc]

theorem length_linesText_le (lines : List Line) : (linesText lines).length ≤ (lines.flatMap Line.full).length := by
  rcases lines.eq_nil_or_concat with rfl | ⟨front, line, rfl⟩
  · exact Nat.le_refl 0
  · rw [List.concat_eq_append, flatMap_full_concat, List.length_append]
    exact Nat.le_add_right _ _

theorem getLast?_append_of_eq_some {s : Text} {c : Char} (front : Text) (h : s.getLast? = some c) :
    (front ++ s).getLast? = some c := by
  rw [List.getLast?_append, h, Option.some_or]

/-- A line break in front of a text. -/
def BreakBefore (lineBreak s : Text) : Prop :=
  brokenLines (lineBreak ++ s) = ⟨[], lineBreak⟩ :: brokenLines s

namespace BreakBefore

theorem newline (s : Text) : BreakBefore ['\n'] s :=
  rfl

theorem returnNewline (s : Text) : BreakBefore ['\r', '\n'] s :=
  rfl

/-- A carriage return is a line break of its own if no newline is behind it. -/
theorem loneReturn {s : Text} (h : s.head? ≠ some '\n') : BreakBefore ['\r'] s := by
  unfold BreakBefore
  rw [List.singleton_append, brokenLines]
  rintro t rfl
  exact h rfl

end BreakBefore

/-- A text ends with a line that has no line break, and a line break behind the text ends this line, if it is not one
together with a carriage return at the end of the text. -/
structure EndsWithLine (s : Text) (front : List Line) (last : Text) : Prop where
  lines : brokenLines s = front ++ [⟨last, []⟩]
  text : front.flatMap Line.full ++ last = s
  append : ∀ {lineBreak t}, BreakBefore lineBreak t → (s.getLast? = some '\r' → (lineBreak ++ t).head? ≠ some '\n') →
    brokenLines (s ++ (lineBreak ++ t)) = front ++ ⟨last, lineBreak⟩ :: brokenLines t

variable {s lineBreak last : Text} {front : List Line}

theorem EndsWithLine.nil : EndsWithLine [] [] [] :=
  ⟨rfl, rfl, fun hbreak _ => hbreak⟩

/-- An empty line in front. -/
theorem EndsWithLine.break_append (h : EndsWithLine s front last) (hs : BreakBefore lineBreak s)
    (happend : ∀ t, (s = [] → (lineBreak ++ s).getLast? = some '\r' → t.head? ≠ some '\n') →
      BreakBefore lineBreak (s ++ t)) :
    EndsWithLine (lineBreak ++ s) (⟨[], lineBreak⟩ :: front) last where
  lines := hs.trans (congrArg _ h.lines)
  text := by
    rw [List.flatMap_cons, List.append_assoc, h.text]
    rfl
  append {lineBreak' t} hbreak hlast := by
    have hrest := h.append hbreak fun he => hlast (getLast?_append_of_eq_some lineBreak he)
    rw [List.append_assoc, happend _ fun _ => hlast, hrest]
    rfl

/-- One more character in the first line. -/
theorem EndsWithLine.exists_cons {c : Char} (h : EndsWithLine s front last) (hr : c ≠ '\r') (hn : c ≠ '\n') :
    ∃ front' last', EndsWithLine (c :: s) front' last' := by
  have happend : ∀ {lineBreak' t}, BreakBefore lineBreak' t →
      ((c :: s).getLast? = some '\r' → (lineBreak' ++ t).head? ≠ some '\n') →
        brokenLines (c :: s ++ (lineBreak' ++ t)) =
          extendFirstLine c (front ++ ⟨last, lineBreak'⟩ :: brokenLines t) := by
    intro lineBreak' t hbreak hlast
    rw [List.cons_append, brokenLines_cons hr hn,
      h.append hbreak fun he => hlast (getLast?_append_of_eq_some [c] he)]
  have hlines := (brokenLines_cons hr hn s).trans (congrArg (extendFirstLine c) h.lines)
  have htext := congrArg (c :: ·) h.text
  cases front with
  | nil => exact ⟨[], c :: last, hlines, htext, happend⟩
  | cons first front => exact ⟨⟨c :: first.text, first.lineBreak⟩ :: front, last, hlines, htext, happend⟩

/-- **Each text ends with some line.** -/
theorem exists_endsWithLine (s : Text) : ∃ front last, EndsWithLine s front last := by
  fun_induction brokenLines s with
  | case1 => exact ⟨[], [], .nil⟩
  | case2 s ih =>
    obtain ⟨front, last, h⟩ := ih
    exact ⟨_, last, h.break_append (.returnNewline s) fun t _ => .returnNewline (s ++ t)⟩
  | case3 s ih =>
    obtain ⟨front, last, h⟩ := ih
    exact ⟨_, last, h.break_append (.newline s) fun t _ => .newline (s ++ t)⟩
  | case4 s hs ih =>
    obtain ⟨front, last, h⟩ := ih
    have hhead := head_ne_newline hs
    refine ⟨_, last, h.break_append (.loneReturn hhead) fun t ht => .loneReturn ?_⟩
    -- the carriage return is a line break of its own, also where it is all of the text
    cases s with
    | nil => exact ht rfl rfl
    | cons c s => exact hhead
  | case5 c s hcrlf hn hr ih =>
    obtain ⟨front, last, h⟩ := ih
    exact h.exists_cons hr hn

/-- A line that holds no line break, and a newline behind it. -/
theorem brokenLines_newline {l : Text} (hr : '\r' ∉ l) (hn : '\n' ∉ l) (s : Text) :
    brokenLines (l ++ '\n' :: s) = ⟨l, ['\n']⟩ :: brokenLines s := by
  induction l with
  | nil => rfl
  | cons c l ih =>
    rw [List.mem_cons, not_or] at hr hn
    rw [List.cons_append, brokenLines_cons (Ne.symm hr.1) (Ne.symm hn.1), ih hr.2 hn.2]
    rfl

/-- **A newline behind a text** ends its last line, alone or together with a carriage return at the end of the text. -/
theorem exists_brokenLines_newline (code s : Text) :
    ∃ lines lineBreak, brokenLines (code ++ '\n' :: s) = lines ++ brokenLines s ∧
      lines.flatMap Line.full = code ++ ['\n'] ∧ linesText lines ++ lineBreak = code ++ ['\n'] ∧
        (lineBreak = ['\n'] ↔ code.getLast? ≠ some '\r') ∧
          (code.getLast? ≠ some '\r' → lines.map Line.text = markdownLines code) := by
  by_cases hlast : code.getLast? = some '\r'
  · obtain ⟨code, rfl⟩ := List.getLast?_eq_some_iff.mp hlast
    obtain ⟨front, last, h⟩ := exists_endsWithLine code
    have htext' : linesText (front ++ [⟨last, ['\r', '\n']⟩]) ++ ['\r', '\n'] = code ++ ['\r'] ++ ['\n'] := by
      rw [linesText_concat, h.text, List.append_assoc]
      rfl
    refine ⟨front ++ [⟨last, ['\r', '\n']⟩], ['\r', '\n'], ?_, (flatMap_full_concat ..).trans htext', htext',
      iff_of_false (by decide) fun h => h hlast, fun h => absurd hlast h⟩
    rw [List.append_assoc, ← List.append_cons]
    exact h.append (.returnNewline s) fun _ => by simp
  · obtain ⟨front, last, h⟩ := exists_endsWithLine code
    have htext' : linesText (front ++ [⟨last, ['\n']⟩]) ++ ['\n'] = code ++ ['\n'] := by
      rw [linesText_concat, h.text]
    refine ⟨front ++ [⟨last, ['\n']⟩], ['\n'], ?_, (flatMap_full_concat ..).trans htext', htext',
      iff_of_true rfl hlast, fun _ => ?_⟩
    · rw [← List.append_cons]
      exact h.append (.newline s) fun he => absurd he hlast
    · rw [← map_text_brokenLines, h.lines, List.map_append, List.map_append]
      rfl

/-! ## Lines up to a closing one -/

/-- Lines that do not close a block, and one that does. -/
theorem untilClosed_append {content : List Line} (h : ∀ l ∈ content, closesFence l.text = false) {line : Line}
    (hline : closesFence line.text = true) (rest : List Line) :
    untilClosed? (content ++ line :: rest) = some (content, rest) := by
  induction content with
  | nil => rw [List.nil_append, untilClosed?, if_pos hline]
  | cons l content ih =>
    have hl := h l List.mem_cons_self
    rw [List.cons_append, untilClosed?, if_neg (by simp [hl]), ih fun l hl => h l (List.mem_cons_of_mem _ hl)]
    rfl

/-- The first of some lines that closes a block. -/
theorem exists_first_closing {lines : List Line} (h : ¬ ∀ l ∈ lines, closesFence l.text = false) :
    ∃ content line rest, lines = content ++ line :: rest ∧ closesFence line.text = true ∧
      ∀ l ∈ content, closesFence l.text = false := by
  cases hfind : lines.find? fun l => closesFence l.text with
  | none =>
    refine absurd (fun l hl => ?_) h
    simpa using List.find?_eq_none.mp hfind l hl
  | some line =>
    obtain ⟨hline, content, rest, rfl, hcontent⟩ := List.find?_eq_some_iff_append.mp hfind
    exact ⟨content, line, rest, rfl, hline, fun l hl => by simpa using hcontent l hl⟩

theorem three_le_length_of_closesFence {line : Text} (h : closesFence line = true) : 3 ≤ line.length := by
  unfold closesFence at h
  simp only [Bool.and_eq_true, decide_eq_true_eq] at h
  calc
    3 ≤ ((line.dropWhile (· = ' ')).takeWhile (· = '`')).length := h.1.2
    _ ≤ (line.dropWhile (· = ' ')).length := (List.takeWhile_sublist _).length_le
    _ ≤ line.length := (List.dropWhile_sublist _).length_le

/-! ## Texts that fit between fences -/

/-- A text that a block gives back as it is: no line of it closes the block, and its last line is ended by the newline
behind the text alone. -/
structure FitsFence (code : Text) : Prop where
  not_closes : ∀ line ∈ markdownLines code, closesFence line = false
  not_return : code.getLast? ≠ some '\r'

variable {code : Text} {closing : Line} {rest : List Line}

/-- **The lines of a text that fits** are read up to the one behind it, and give the text. -/
theorem untilClosed_of_fits (h : FitsFence code) (hs : brokenLines s = closing :: rest)
    (hclosing : closesFence closing.text = true) :
    ∃ content, untilClosed? (brokenLines (code ++ '\n' :: s)) = some (content, rest) ∧ linesText content = code := by
  obtain ⟨lines, lineBreak, hlines, -, htext, hbreak, hmap⟩ := exists_brokenLines_newline code s
  obtain rfl : lineBreak = ['\n'] := hbreak.mpr h.not_return
  have hopen : ∀ l ∈ lines, closesFence l.text = false := by
    intro l hl
    refine h.not_closes l.text ?_
    rw [← hmap h.not_return]
    exact List.mem_map_of_mem hl
  refine ⟨lines, ?_, List.append_cancel_right htext⟩
  rw [hlines, hs, untilClosed_append hopen hclosing]

/-- **Only a text that fits** is given back by the lines that are read of it. -/
theorem fitsFence_of_untilClosed {content last : List Line} (hs : brokenLines s = closing :: rest)
    (hclosing : closesFence closing.text = true)
    (h : untilClosed? (brokenLines (code ++ '\n' :: s)) = some (content, last)) (hcode : linesText content = code) :
    FitsFence code := by
  obtain ⟨lines, lineBreak, hlines, hfull, htext, hbreak, hmap⟩ := exists_brokenLines_newline code s
  rw [hlines] at h
  by_cases hopen : ∀ l ∈ lines, closesFence l.text = false
  · rw [hs, untilClosed_append hopen hclosing] at h
    obtain rfl : lines = content := (Prod.mk.inj (Option.some.inj h)).1
    rw [hcode] at htext
    have hreturn := hbreak.mp (List.append_cancel_left htext)
    refine ⟨fun line hline => ?_, hreturn⟩
    rw [← hmap hreturn] at hline
    obtain ⟨l, hl, rfl⟩ := List.mem_map.mp hline
    exact hopen l hl
  · -- the block is closed by a line of the text, and what is read is shorter than the text
    obtain ⟨front, line, back, rfl, hline, hfront⟩ := exists_first_closing hopen
    rw [List.append_assoc, List.cons_append, untilClosed_append hfront hline] at h
    obtain rfl : front = content := (Prod.mk.inj (Option.some.inj h)).1
    have hlength := congrArg List.length hfull
    have hread := length_linesText_le front
    have hthree := three_le_length_of_closesFence hline
    rw [List.flatMap_append, List.flatMap_cons, Line.full] at hlength
    simp only [List.length_append, List.length_singleton] at hlength
    rw [hcode] at hread
    omega

/-! ## Blocks -/

theorem readFences_of_none {opening : Text} {lines : List Line} (h : readFence? opening lines = none) :
    readFences opening lines = ([], lines) := by
  rw [readFences]
  split <;> simp_all

theorem readFences_of_some {opening content : Text} {lines rest : List Line}
    (h : readFence? opening lines = some (content, rest)) :
    readFences opening lines =
      (content :: (readFences opening (dropEmptyLine rest)).1, (readFences opening (dropEmptyLine rest)).2) := by
  rw [readFences]
  split <;> simp_all

/-- Nothing is read where no block begins. -/
theorem readFence_eq_none {opening : Text} {line : Line} (h : line.text ≠ opening) (lines : List Line) :
    readFence? opening (line :: lines) = none :=
  if_neg h

/-- The block of a text that fits is read back, and the reading goes on behind it. -/
theorem readFences_of_fits (h : FitsFence code) (hs : brokenLines s = closing :: rest)
    (hclosing : closesFence closing.text = true) (opening : Line) :
    readFences opening.text (opening :: brokenLines (code ++ '\n' :: s)) =
      (code :: (readFences opening.text (dropEmptyLine rest)).1,
        (readFences opening.text (dropEmptyLine rest)).2) := by
  obtain ⟨content, hread, rfl⟩ := untilClosed_of_fits h hs hclosing
  refine readFences_of_some ?_
  rw [readFence?, if_pos rfl, hread]
  rfl

/-- A text that is read back fits. -/
theorem fitsFence_of_readFences (opening : Line) {codes : List Text} {last : List Line}
    (hs : brokenLines s = closing :: rest) (hclosing : closesFence closing.text = true)
    (h : readFences opening.text (opening :: brokenLines (code ++ '\n' :: s)) = (code :: codes, last)) :
    FitsFence code := by
  cases hread : readFence? opening.text (opening :: brokenLines (code ++ '\n' :: s)) with
  | none =>
    rw [readFences_of_none hread] at h
    cases h
  | some read =>
    obtain ⟨content, behind⟩ := read
    rw [readFences_of_some hread] at h
    obtain rfl : content = code := (List.cons.inj (Prod.mk.inj h).1).1
    rw [readFence?, if_pos rfl] at hread
    obtain ⟨⟨lines, behind⟩, huntil, he⟩ := Option.map_eq_some_iff.mp hread
    exact fitsFence_of_untilClosed hs hclosing huntil (Prod.mk.inj he).1

end ApiReference.Markdown
