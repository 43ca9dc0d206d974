import ApiReference.Proofs.Markdown.Lines

/-!
# The lines of a table

A row of a table is one line if no line break is left in its cells. Newlines are folded, alone and behind a carriage
return, but a carriage return that no newline follows is kept (`return_mem_foldBreaks_iff`), and Markdown takes it for
the end of a line. So a table has a line for each row, and one below the header, exactly if no cell that is shown has
such a carriage return (`markdownLines_renderTable_iff`).
-/

namespace ApiReference.Markdown

/-! ## Cells -/

/-- Somewhere in the text stands a carriage return that no newline follows. -/
def HasLoneReturn (s : Text) : Prop :=
  ∃ front rest, s = front ++ '\r' :: rest ∧ rest.head? ≠ some '\n'

theorem not_hasLoneReturn_nil : ¬ HasLoneReturn [] := by
  rintro ⟨front, rest, h, -⟩
  simp at h

/-- A carriage return counts by itself, and any other character not at all. -/
theorem hasLoneReturn_cons_iff (c : Char) (s : Text) :
    HasLoneReturn (c :: s) ↔ (c = '\r' ∧ s.head? ≠ some '\n') ∨ HasLoneReturn s := by
  constructor
  · rintro ⟨front, rest, h, hrest⟩
    cases front with
    | nil =>
      obtain ⟨rfl, rfl⟩ := List.cons.inj h
      exact .inl ⟨rfl, hrest⟩
    | cons d front =>
      obtain ⟨rfl, rfl⟩ := List.cons.inj h
      exact .inr ⟨front, rest, rfl, hrest⟩
  · rintro (⟨rfl, hs⟩ | ⟨front, rest, rfl, hrest⟩)
    · exact ⟨[], s, rfl, hs⟩
    · exact ⟨c :: front, rest, rfl, hrest⟩

/-- Folding keeps the carriage returns that no newline follows, and no others. -/
theorem return_mem_foldBreaks_iff (s : Text) : '\r' ∈ foldBreaks s ↔ HasLoneReturn s := by
  fun_induction foldBreaks s with
  | case1 s ih => simp [hasLoneReturn_cons_iff, ih]
  | case2 s ih => simp [hasLoneReturn_cons_iff, ih]
  | case3 c s hcr hnl ih =>
    have hhead : c = '\r' → s.head? ≠ some '\n' := by
      rintro rfl hs
      cases s with
      | nil => simp at hs
      | cons d s => exact hcr s rfl (by rw [Option.some.inj hs])
    rw [List.mem_cons, ih, hasLoneReturn_cons_iff]
    refine or_congr_left ⟨fun e => ⟨e.symm, hhead e.symm⟩, fun h => h.1.symm⟩
  | case4 => simp [not_hasLoneReturn_nil]

theorem return_mem_escapePipes_iff (s : Text) : '\r' ∈ escapePipes s ↔ '\r' ∈ s := by
  constructor
  · intro h
    exact (mem_escapePipes h).resolve_right (by decide)
  · intro h
    exact List.mem_flatMap.mpr ⟨'\r', h, by decide⟩

theorem return_mem_renderCell_iff (cell : Text) : '\r' ∈ renderCell cell ↔ HasLoneReturn cell := by
  rw [renderCell_eq, return_mem_escapePipes_iff, return_mem_foldBreaks_iff]

theorem newline_not_mem_renderCell (cell : Text) : '\n' ∉ renderCell cell := by
  rw [renderCell_eq]
  exact newline_not_mem_escapePipes (newline_not_mem_foldBreaks cell)

/-! ## Rows -/

/-- A character of a row that is no pipe and no space is in one of the cells that are shown. -/
theorem mem_renderRow_iff {c : Char} (hc : c ≠ '|' ∧ c ≠ ' ') (width : Nat) (cells : List Text) :
    c ∈ renderRow width cells ↔ ∃ cell ∈ cells.take width, c ∈ renderCell cell := by
  have hsep : c ∉ " | ".toList := by simp [hc]
  have hfront : c ∉ "| ".toList := by simp [hc]
  have hback : c ∉ " |".toList := by simp [hc]
  rw [renderRow, List.mem_append, List.mem_append, mem_intercalate_iff hsep]
  constructor
  · rintro ((h | ⟨piece, hpiece, h⟩) | h)
    · exact absurd h hfront
    · rcases List.mem_append.mp hpiece with hpiece | hpiece
      · obtain ⟨cell, hcell, rfl⟩ := List.mem_map.mp hpiece
        exact ⟨cell, hcell, h⟩
      · rw [List.eq_of_mem_replicate hpiece] at h
        exact absurd h List.not_mem_nil
    · exact absurd h hback
  · rintro ⟨cell, hcell, h⟩
    exact .inl (.inr ⟨renderCell cell, List.mem_append_left _ (List.mem_map_of_mem hcell), h⟩)

theorem newline_not_mem_renderRow (width : Nat) (cells : List Text) : '\n' ∉ renderRow width cells := by
  rw [mem_renderRow_iff (by decide)]
  rintro ⟨cell, -, h⟩
  exact newline_not_mem_renderCell cell h

theorem return_mem_renderRow_iff (width : Nat) (cells : List Text) :
    '\r' ∈ renderRow width cells ↔ ∃ cell ∈ cells.take width, HasLoneReturn cell := by
  rw [mem_renderRow_iff (by decide)]
  simp only [return_mem_renderCell_iff]

/-- A row begins and ends with a pipe. -/
theorem renderRow_ends (width : Nat) (cells : List Text) :
    "| ".toList <+: renderRow width cells ∧ " |".toList <:+ renderRow width cells := by
  unfold renderRow
  exact ⟨⟨_, (List.append_assoc ..).symm⟩, List.suffix_append _ _⟩

theorem getLast_renderRow (width : Nat) (cells : List Text) : (renderRow width cells).getLast? = some '|' := by
  obtain ⟨front, h⟩ := (renderRow_ends width cells).2
  rw [← h, List.getLast?_append]
  rfl

/-! ## Tables -/

theorem tableLines_eq_map (header : List Text) (body : List (List Text)) :
    tableLines header body =
      (header :: List.replicate header.length "---".toList :: body).map (renderRow header.length) := rfl

/-- The lines of a table as Markdown counts them. -/
theorem markdownLines_renderTable (header : List Text) (body : List (List Text)) :
    markdownLines (renderTable (header :: body)) = (tableLines header body).flatMap (splitAtChar '\r') := by
  refine markdownLines_intercalate (List.cons_ne_nil _ _) fun l hl => ?_
  rw [tableLines_eq_map] at hl
  obtain ⟨cells, -, rfl⟩ := List.mem_map.mp hl
  rw [getLast_renderRow]
  exact ⟨newline_not_mem_renderRow _ _, by decide⟩

/-- No carriage return is left in a table if no cell that is shown has one that no newline follows. -/
theorem return_not_mem_tableLines_iff (header : List Text) (body : List (List Text)) :
    (∀ l ∈ tableLines header body, '\r' ∉ l) ↔
      ∀ row ∈ header :: body, ∀ cell ∈ row.take header.length, ¬ HasLoneReturn cell := by
  have hrow (row : List Text) :
      '\r' ∉ renderRow header.length row ↔ ∀ cell ∈ row.take header.length, ¬ HasLoneReturn cell := by
    rw [return_mem_renderRow_iff]
    simp only [not_exists, not_and]
  have hdashes : ∀ cell ∈ (List.replicate header.length "---".toList).take header.length, ¬ HasLoneReturn cell := by
    intro cell hcell
    rw [List.eq_of_mem_replicate (List.mem_of_mem_take hcell), ← return_mem_foldBreaks_iff]
    decide
  rw [tableLines_eq_map, List.forall_mem_map, List.forall_mem_cons, List.forall_mem_cons, List.forall_mem_cons]
  simp only [hrow]
  exact and_congr_right fun _ => and_iff_right hdashes

/-- **A table has a line for each row and one below the header**, each with a pipe at both ends, as Markdown counts
lines, exactly if every carriage return in a cell that is shown is followed by a newline. -/
theorem markdownLines_renderTable_iff (header : List Text) (body : List (List Text)) :
    ((markdownLines (renderTable (header :: body))).length = (header :: body).length + 1 ∧
        ∀ l ∈ markdownLines (renderTable (header :: body)), "| ".toList <+: l ∧ " |".toList <:+ l) ↔
      ∀ row ∈ header :: body, ∀ cell ∈ row.take header.length, ¬ HasLoneReturn cell := by
  have hlength : (tableLines header body).length = (header :: body).length + 1 := by simp [tableLines]
  rw [← return_not_mem_tableLines_iff, markdownLines_renderTable, ← hlength]
  constructor
  · rintro ⟨hlines, -⟩
    exact (length_flatMap_splitAtChar_eq_iff '\r' _).mp hlines
  · intro h
    rw [flatMap_splitAtChar_of_not_mem h]
    refine ⟨rfl, fun l hl => ?_⟩
    rw [tableLines_eq_map] at hl
    obtain ⟨cells, -, rfl⟩ := List.mem_map.mp hl
    exact renderRow_ends header.length cells

/-- A carriage return in a cell cuts its row in two. -/
theorem markdownLines_renderTable_lone_return :
    markdownLines (renderTable [["h".toList], ["a\rb".toList]]) =
      ["| h |".toList, "| --- |".toList, "| a".toList, "b |".toList] := by
  rw [renderTable_eq (by decide)]
  decide

end ApiReference.Markdown
