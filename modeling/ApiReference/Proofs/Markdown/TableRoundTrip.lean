import ApiReference.Markdown.TableReader

/-!
# Tables are read back

`readTable` undoes `renderTable` up to the line breaks of cells and the width of rows.

- a cell is written with its line breaks folded and its pipes escaped (`renderCell_eq`), and neither a newline nor a
  pipe without a backslash is left in it (`newline_not_mem_escapePipes`, `splitAtPipe_padded`);
- one row: the pieces between the pipes of a row are its padded cells (`readRow_line`);
- the table: its lines are its rows (`readTable_renderTable`).
-/

namespace ApiReference.Markdown

/-! ## Cells -/

/-- A cell with a backslash in front of each pipe. -/
def escapePipes (s : Text) : Text :=
  s.flatMap fun c => if c = '|' then ['\\', '|'] else [c]

theorem escapePipes_cons (c : Char) (s : Text) :
    escapePipes (c :: s) = (if c = '|' then ['\\', '|'] else [c]) ++ escapePipes s := by
  simp [escapePipes]

/-- An escaped cell does not begin with a pipe. -/
theorem escapePipes_ne_pipe (s t : Text) : escapePipes s ≠ '|' :: t := by
  cases s with
  | nil => simp [escapePipes]
  | cons c s =>
    rw [escapePipes_cons]
    by_cases hc : c = '|' <;> simp [hc]

/-- Away from an escaped pipe, a character of a cell is kept. -/
theorem unescapePipes_cons {c : Char} {s : Text} (h : ∀ t, c = '\\' → s ≠ '|' :: t) :
    unescapePipes (c :: s) = c :: unescapePipes s := by
  rw [unescapePipes]
  rintro t rfl rfl
  exact h t rfl rfl

/-- Escaping pipes is undone exactly. -/
theorem unescapePipes_escapePipes (s : Text) : unescapePipes (escapePipes s) = s := by
  induction s with
  | nil => rfl
  | cons c s ih =>
    rw [escapePipes_cons]
    by_cases hc : c = '|'
    · subst hc
      simpa [unescapePipes] using ih
    · rw [if_neg hc, List.singleton_append, unescapePipes_cons (fun t _ => escapePipes_ne_pipe s t), ih]

/-- A carriage return and a newline are read as one line break. -/
theorem carriageReturn_break (s : Text) :
    carriageReturn.rewrite ('\r' :: '\n' :: s) = ' ' :: carriageReturn.rewrite s := by
  have h : carriageReturn.atFront? ('\r' :: '\n' :: s) = some ([' '], s) := rfl
  exact Text.Rule.rewrite_of_some h

/-- What is not a carriage return and a newline is kept. -/
theorem carriageReturn_cons {c : Char} {s : Text} (h : ∀ t, c = '\r' → s ≠ '\n' :: t) :
    carriageReturn.rewrite (c :: s) = c :: carriageReturn.rewrite s := by
  apply Text.Rule.rewrite_of_none
  by_cases hc : c = '\r'
  · cases s with
    | nil => simp [carriageReturn, Text.Rule.literal, Text.after?, Text.behind?, hc]
    | cons d t =>
      have hd : d ≠ '\n' := fun e => h t hc (e ▸ rfl)
      simp [carriageReturn, Text.Rule.literal, Text.after?, Text.behind?, hc, hd]
  · simp [carriageReturn, Text.Rule.literal, Text.after?, Text.behind?, hc]

/-- A cell is written with its line breaks folded and its pipes escaped. -/
theorem renderCell_eq (cell : Text) : renderCell cell = escapePipes (foldBreaks cell) := by
  unfold renderCell
  fun_induction foldBreaks cell with
  | case1 s ih =>
    rw [carriageReturn_break, List.flatMap_cons, ih, escapePipes_cons]
    rfl
  | case2 s ih =>
    rw [carriageReturn_cons (by simp), List.flatMap_cons, ih, escapePipes_cons]
    rfl
  | case3 c s hcr hnl ih =>
    have hc : c ≠ '\n' := fun e => hnl e
    rw [carriageReturn_cons (fun t e => hcr t e), List.flatMap_cons, ih, escapePipes_cons]
    simp [renderCellChar, hc]
  | case4 => simp [escapePipes]

theorem newline_not_mem_foldBreaks (s : Text) : '\n' ∉ foldBreaks s := by
  fun_induction foldBreaks s <;> simp_all [eq_comm]

theorem mem_escapePipes {c : Char} {s : Text} (h : c ∈ escapePipes s) : c ∈ s ∨ c = '\\' := by
  obtain ⟨d, hd, h⟩ := List.mem_flatMap.mp h
  by_cases hp : d = '|'
  · subst hp
    rcases (by simpa using h : c = '\\' ∨ c = '|') with h | rfl
    · exact Or.inr h
    · exact Or.inl hd
  · obtain rfl : c = d := by simpa [hp] using h
    exact Or.inl hd

/-- No newline is left in a written cell. -/
theorem newline_not_mem_escapePipes {s : Text} (h : '\n' ∉ s) : '\n' ∉ escapePipes s := by
  intro hn
  rcases mem_escapePipes hn with hn | hn
  · exact h hn
  · exact absurd hn (by decide)

/-! ## Rows -/

/-- A cell between two spaces, with its pipes escaped. -/
def padded (cell : Text) : Text :=
  ' ' :: (escapePipes cell ++ [' '])

/-- A line of padded cells, with a pipe in front of all and one behind each. -/
def line (cells : List Text) : Text :=
  '|' :: cells.flatMap fun cell => padded cell ++ ['|']

/-- Cells written with pipes between them are those of a line. -/
theorem intercalate_eq_line {cells : List Text} (h : cells ≠ []) :
    "| ".toList ++ List.intercalate " | ".toList (cells.map escapePipes) ++ " |".toList = line cells := by
  induction cells with
  | nil => exact absurd rfl h
  | cons cell cells ih =>
    cases cells with
    | nil => simp [line, padded]
    | cons cell' cells =>
      have := ih (by simp)
      simp only [line, padded, List.map_cons, List.intercalate_cons_cons, List.flatMap_cons] at this ⊢
      simp_all

/-- A padded cell is one piece: none of its pipes ends it, and the next one does. -/
theorem splitAtPipe_padded (cell rest : Text) :
    splitAtPipe false (padded cell ++ '|' :: rest) = padded cell :: splitAtPipe false rest := by
  have escaped (e : Bool) (s : Text) : splitAtPipe e (escapePipes s ++ ' ' :: '|' :: rest) =
      (escapePipes s ++ [' ']) :: splitAtPipe false rest := by
    induction s generalizing e with
    | nil => simp [escapePipes, splitAtPipe, extendFirst]
    | cons c s ih =>
      rw [escapePipes_cons]
      by_cases hc : c = '|' <;> simp [hc, splitAtPipe, ih, extendFirst]
  simp [padded, splitAtPipe, escaped, extendFirst]

/-- The pieces of a line are its padded cells. -/
theorem splitAtPipe_line (cells : List Text) : splitAtPipe false (line cells) = [] :: (cells.map padded ++ [[]]) := by
  have pieces : splitAtPipe false (cells.flatMap fun cell => padded cell ++ ['|']) = cells.map padded ++ [[]] := by
    induction cells with
    | nil => rfl
    | cons cell cells ih =>
      rw [List.flatMap_cons, List.append_assoc, List.singleton_append, splitAtPipe_padded, ih]
      rfl
  simp [line, splitAtPipe, pieces]

theorem unpad_padded (cell : Text) : unpad (padded cell) = escapePipes cell := by
  simp [unpad, padded, Text.after?, Text.behind?]

/-- The cells of a line are read back. -/
theorem readRow_line (cells : List Text) : readRow (line cells) = cells := by
  unfold readRow
  rw [splitAtPipe_line, List.tail_cons, List.dropLast_concat, List.map_map]
  calc cells.map _ = cells.map id := List.map_congr_left fun cell _ => by
        rw [Function.comp_apply, unpad_padded, unescapePipes_escapePipes, id]
    _ = cells := List.map_id cells

theorem newline_not_mem_line {cells : List Text} (h : ∀ cell ∈ cells, '\n' ∉ cell) : '\n' ∉ line cells := by
  intro hn
  simp only [line, padded, List.mem_cons, List.mem_flatMap, List.mem_append, List.not_mem_nil, or_false] at hn
  rcases hn with hn | ⟨cell, hc, (hn | hn | hn) | hn⟩
  · exact absurd hn (by decide)
  · exact absurd hn (by decide)
  · exact newline_not_mem_escapePipes (h cell hc) hn
  · exact absurd hn (by decide)
  · exact absurd hn (by decide)

/-- A line ends with a pipe. -/
theorem getLast_line (cells : List Text) : (line cells).getLast? = some '|' := by
  rcases List.eq_nil_or_concat cells with rfl | ⟨cells, cell, rfl⟩
  · rfl
  · simp only [line, List.concat_eq_append, List.flatMap_append, List.flatMap_singleton]
    rw [← List.append_assoc, ← List.cons_append, List.getLast?_concat]

/-! ## Tables -/

/-- The cells of a row of a table that is `width` columns wide: cut or padded with empty cells, and the line breaks of
each folded. -/
def fittedRow (width : Nat) (cells : List Text) : List Text :=
  (cells.take width).map foldBreaks ++ List.replicate (width - cells.length) []

theorem length_fittedRow (width : Nat) (cells : List Text) : (fittedRow width cells).length = width := by
  simp [fittedRow]
  omega

theorem fittedRow_length (cells : List Text) : fittedRow cells.length cells = cells.map foldBreaks := by
  simp [fittedRow]

/-- A row is written as the line of its fitted cells. -/
theorem renderRow_eq_line {width : Nat} (h : 1 ≤ width) (cells : List Text) :
    renderRow width cells = line (fittedRow width cells) := by
  have hne : fittedRow width cells ≠ [] := by
    rw [← List.length_pos_iff, length_fittedRow]
    exact h
  have hmin : width - min width cells.length = width - cells.length := by omega
  rw [← intercalate_eq_line hne]
  simp only [renderRow, fittedRow, List.map_append, List.map_map, List.length_map, List.length_take,
    List.map_replicate, hmin]
  congr 5
  exact funext renderCell_eq

theorem newline_not_mem_fittedRow {width : Nat} {cells : List Text} :
    ∀ cell ∈ fittedRow width cells, '\n' ∉ cell := by
  intro cell hc
  simp only [fittedRow, List.mem_append, List.mem_map, List.mem_replicate] at hc
  rcases hc with ⟨cell, -, rfl⟩ | ⟨-, rfl⟩
  · exact newline_not_mem_foldBreaks cell
  · simp

/-- The rows of a table whose header has a cell, each fitted to the width of the header. -/
def fittedRows (header : List Text) (body : List (List Text)) : List (List Text) :=
  (header :: List.replicate header.length "---".toList :: body).map (fittedRow header.length)

theorem fittedRows_eq (header : List Text) (body : List (List Text)) :
    fittedRows header body = header.map foldBreaks :: List.replicate header.length "---".toList ::
      body.map (fittedRow header.length) := by
  have hfold : foldBreaks "---".toList = "---".toList := rfl
  have hdashes := fittedRow_length (List.replicate header.length "---".toList)
  rw [List.length_replicate, List.map_replicate, hfold] at hdashes
  rw [fittedRows, List.map_cons, List.map_cons, fittedRow_length, hdashes]

/-- The lines of a table are those of its fitted rows. -/
theorem renderTable_eq {header : List Text} (h : 1 ≤ header.length) (body : List (List Text)) :
    renderTable (header :: body) = List.intercalate ['\n'] ((fittedRows header body).map line) := by
  have hrow : renderRow header.length = line ∘ fittedRow header.length := funext (renderRow_eq_line h)
  simp [renderTable, tableLines, fittedRows, hrow]

theorem splitAtChar_eq_splitOn (mark : Char) (s : Text) : splitAtChar mark s = s.splitOn mark := by
  induction s with
  | nil => rfl
  | cons c s ih =>
    rw [splitAtChar, List.splitOn_cons_eq_if_modifyHead, ih]
    obtain ⟨piece, pieces, hp⟩ := List.exists_cons_of_ne_nil (List.splitOn_ne_nil mark s)
    simp [hp, extendFirst]

/-- The rows of a table are read back from its lines. -/
theorem readTable_eq {header : List Text} (h : 1 ≤ header.length) (body : List (List Text)) :
    readTable (renderTable (header :: body)) = fittedRows header body := by
  have hlines : ∀ l ∈ (fittedRows header body).map line, '\n' ∉ l := by
    simp only [fittedRows, List.map_map, List.mem_map]
    rintro _ ⟨cells, -, rfl⟩
    exact newline_not_mem_line newline_not_mem_fittedRow
  rw [readTable, renderTable_eq h, splitAtChar_eq_splitOn,
    List.splitOn_intercalate '\n' hlines (by simp [fittedRows]), List.map_map]
  calc (fittedRows header body).map _ = (fittedRows header body).map id :=
        List.map_congr_left fun cells _ => readRow_line cells
    _ = fittedRows header body := List.map_id _

/-- Lines put one behind another end as the last one does. -/
theorem getLast_intercalate_lines {ls : List Text} (h : ∀ l ∈ ls, l.getLast? = some '|') (hne : ls ≠ []) :
    (List.intercalate ['\n'] ls).getLast? = some '|' := by
  induction ls with
  | nil => exact absurd rfl hne
  | cons l ls ih =>
    cases ls with
    | nil => simpa using h l (by simp)
    | cons l' ls =>
      rw [List.intercalate_cons_cons, List.getLast?_append, ih (fun l hl => h l (by simp [hl])) (by simp)]
      rfl

/-- A table ends with a pipe. -/
theorem getLast_renderTable {header : List Text} (h : 1 ≤ header.length) (body : List (List Text)) :
    (renderTable (header :: body)).getLast? = some '|' := by
  rw [renderTable_eq h]
  refine getLast_intercalate_lines ?_ (by simp [fittedRows])
  intro l hl
  obtain ⟨cells, -, rfl⟩ := List.mem_map.mp hl
  exact getLast_line cells

/-- **A table is read back**: its header, a row of dashes and the rows of its body, all as wide as the header, with
nothing changed but the line breaks of cells. No newline stands at its end, and tables of the same width have the same
text only if the same is read back from them. -/
theorem readTable_renderTable {header : List Text} (h : 1 ≤ header.length) (body : List (List Text)) :
    readTable (renderTable (header :: body)) = header.map foldBreaks ::
        List.replicate header.length "---".toList :: body.map (fittedRow header.length) ∧
      (readTable (renderTable (header :: body))).length = (header :: body).length + 1 ∧
      (∀ row ∈ readTable (renderTable (header :: body)), row.length = header.length) ∧
      (renderTable (header :: body)).getLast? ≠ some '\n' ∧
      ∀ (header' : List Text) (body' : List (List Text)), header'.length = header.length →
        renderTable (header' :: body') = renderTable (header :: body) →
          header'.map foldBreaks = header.map foldBreaks ∧
            body'.map (fittedRow header.length) = body.map (fittedRow header.length) := by
  refine ⟨?_, ?_, ?_, ?_, ?_⟩
  · rw [readTable_eq h, fittedRows_eq]
  · simp [readTable_eq h, fittedRows]
  · intro row hrow
    rw [readTable_eq h, fittedRows] at hrow
    obtain ⟨cells, -, rfl⟩ := List.mem_map.mp hrow
    exact length_fittedRow _ cells
  · rw [getLast_renderTable h]
    decide
  · intro header' body' hl heq
    have hrows : fittedRows header' body' = fittedRows header body := by
      rw [← readTable_eq (hl ▸ h), heq, readTable_eq h]
    rw [fittedRows_eq, fittedRows_eq, hl] at hrows
    simp only [List.cons.injEq, true_and] at hrows
    exact hrows

/-- A table of one column with a pipe behind a backslash, a line break, a cell too many and a cell missing. -/
theorem readTable_renderTable_one_column :
    1 ≤ ["a|b".toList].length ∧
      readTable (renderTable (["a|b".toList] :: [["\\|\r\n".toList, "cut".toList], []])) =
        [["a|b".toList], ["---".toList], ["\\| ".toList], [[]]] ∧
      renderTable (["a|b".toList] :: [["\\|\n".toList], [[]]]) =
        renderTable (["a|b".toList] :: [["\\|\r\n".toList, "cut".toList], []]) ∧
      [["\\|\n".toList], [[]]].map (fittedRow 1) = [["\\|\r\n".toList, "cut".toList], []].map (fittedRow 1) := by
  have hw : 1 ≤ ["a|b".toList].length := by decide
  have same : renderTable (["a|b".toList] :: [["\\|\n".toList], [[]]]) =
      renderTable (["a|b".toList] :: [["\\|\r\n".toList, "cut".toList], []]) := by
    rw [renderTable_eq hw, renderTable_eq hw]
    rfl
  have h := readTable_renderTable hw [["\\|\r\n".toList, "cut".toList], []]
  exact ⟨hw, h.1, same, (h.2.2.2.2 _ _ rfl same).2⟩

end ApiReference.Markdown
