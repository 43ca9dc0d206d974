import ApiReference.Proofs.Markdown.TableRoundTrip

/-!
# Lines

Texts are cut into pieces at a character, and put together from pieces with one between them.

- the pieces of two texts with the mark between them are those of both (`splitAtChar_append`), and a text is put
  together again from its pieces (`intercalate_splitAtChar`);
- the lines of a text as Markdown counts them: a line that is ended by a newline is cut further at each carriage return
  in it (`markdownLines_append`, `markdownLines_intercalate`).
-/

namespace ApiReference.Markdown

/-! ## Pieces -/

theorem splitAtChar_ne_nil (mark : Char) (s : Text) : splitAtChar mark s ≠ [] := by
  rw [splitAtChar_eq_splitOn]
  exact List.splitOn_ne_nil mark s

theorem extendFirst_append (c : Char) {pieces : List Text} (h : pieces ≠ []) (pieces' : List Text) :
    extendFirst c (pieces ++ pieces') = extendFirst c pieces ++ pieces' := by
  cases pieces with
  | nil => exact absurd rfl h
  | cons piece pieces => rfl

theorem length_extendFirst (c : Char) {pieces : List Text} (h : pieces ≠ []) :
    (extendFirst c pieces).length = pieces.length := by
  cases pieces with
  | nil => exact absurd rfl h
  | cons piece pieces => rfl

/-- The pieces of two texts with the mark between them. -/
theorem splitAtChar_append (mark : Char) (s t : Text) :
    splitAtChar mark (s ++ mark :: t) = splitAtChar mark s ++ splitAtChar mark t := by
  induction s with
  | nil => simp [splitAtChar]
  | cons c s ih =>
    rw [List.cons_append, splitAtChar, splitAtChar, ih]
    by_cases hc : c = mark
    · simp [hc]
    · rw [if_neg hc, if_neg hc, extendFirst_append c (splitAtChar_ne_nil mark s)]

theorem splitAtChar_of_not_mem {mark : Char} {s : Text} (h : mark ∉ s) : splitAtChar mark s = [s] := by
  induction s with
  | nil => rfl
  | cons c s ih =>
    rw [List.mem_cons, not_or] at h
    rw [splitAtChar, if_neg fun e => h.1 e.symm, ih h.2]
    rfl

/-- There is one piece more than there are marks. -/
theorem length_splitAtChar (mark : Char) (s : Text) : (splitAtChar mark s).length = s.count mark + 1 := by
  induction s with
  | nil => rfl
  | cons c s ih =>
    rw [splitAtChar]
    by_cases hc : c = mark
    · rw [if_pos hc, List.length_cons, ih, hc, List.count_cons_self]
    · rw [if_neg hc, length_extendFirst c (splitAtChar_ne_nil mark s), ih, List.count_cons_of_ne hc]

theorem length_flatMap_splitAtChar (mark : Char) (ls : List Text) :
    (ls.flatMap (splitAtChar mark)).length = ls.length + ls.flatten.count mark := by
  induction ls with
  | nil => rfl
  | cons l ls ih =>
    rw [List.flatMap_cons, List.length_append, length_splitAtChar, ih, List.flatten_cons, List.count_append,
      List.length_cons]
    omega

/-- Texts without the mark stay as they are, and only they do. -/
theorem length_flatMap_splitAtChar_eq_iff (mark : Char) (ls : List Text) :
    (ls.flatMap (splitAtChar mark)).length = ls.length ↔ ∀ l ∈ ls, mark ∉ l := by
  rw [length_flatMap_splitAtChar, Nat.add_eq_left, List.count_eq_zero, List.mem_flatten]
  simp

theorem flatMap_splitAtChar_of_not_mem {mark : Char} {ls : List Text} (h : ∀ l ∈ ls, mark ∉ l) :
    ls.flatMap (splitAtChar mark) = ls := by
  induction ls with
  | nil => rfl
  | cons l ls ih =>
    rw [List.flatMap_cons, splitAtChar_of_not_mem (h l List.mem_cons_self),
      ih fun l hl => h l (List.mem_cons_of_mem _ hl), List.singleton_append]

/-- A text is put together from its pieces. -/
theorem intercalate_splitAtChar (mark : Char) (s : Text) : List.intercalate [mark] (splitAtChar mark s) = s := by
  rw [splitAtChar_eq_splitOn, List.intercalate_splitOn]

theorem intercalate_append (sep : Text) {pieces pieces' : List Text} (h : pieces ≠ []) (h' : pieces' ≠ []) :
    List.intercalate sep (pieces ++ pieces') = List.intercalate sep pieces ++ sep ++ List.intercalate sep pieces' := by
  induction pieces with
  | nil => exact absurd rfl h
  | cons piece pieces ih =>
    cases pieces with
    | nil =>
      obtain ⟨first, rest, rfl⟩ := List.exists_cons_of_ne_nil h'
      rw [List.singleton_append, List.intercalate_cons_cons, List.intercalate_singleton]
    | cons piece' pieces =>
      rw [List.cons_append, List.cons_append, List.intercalate_cons_cons, ← List.cons_append,
        ih (List.cons_ne_nil _ _), List.intercalate_cons_cons]
      simp only [List.append_assoc]

/-- A character that is not between the pieces is in one of them. -/
theorem mem_intercalate_iff {c : Char} {sep : Text} (hsep : c ∉ sep) (pieces : List Text) :
    c ∈ List.intercalate sep pieces ↔ ∃ piece ∈ pieces, c ∈ piece := by
  induction pieces with
  | nil => simp
  | cons piece pieces ih =>
    cases pieces with
    | nil => simp
    | cons piece' pieces =>
      rw [List.intercalate_cons_cons, List.mem_append, List.mem_append, ih]
      simp [hsep]

/-! ## Lines as Markdown counts them -/

/-- A carriage return that no newline follows ends a line. -/
theorem markdownLines_return {s : Text} (h : s.head? ≠ some '\n') :
    markdownLines ('\r' :: s) = [] :: markdownLines s := by
  rw [markdownLines]
  rintro t rfl
  exact h rfl

theorem markdownLines_cons {c : Char} (hr : c ≠ '\r') (hn : c ≠ '\n') (s : Text) :
    markdownLines (c :: s) = extendFirst c (markdownLines s) := by
  rw [markdownLines]
  · exact fun t e _ => hr e
  · exact hn
  · exact hr

/-- A line that is ended by a newline, and the lines behind it. -/
theorem markdownLines_append {l : Text} (hl : '\n' ∉ l) (hlast : l.getLast? ≠ some '\r') (s : Text) :
    markdownLines (l ++ '\n' :: s) = splitAtChar '\r' l ++ markdownLines s := by
  induction l with
  | nil => rfl
  | cons c l ih =>
    rw [List.mem_cons, not_or] at hl
    have hlast' : l.getLast? ≠ some '\r' := by
      intro he
      cases l with
      | nil => exact absurd he nofun
      | cons d l => exact hlast (by rwa [List.getLast?_cons_cons])
    rw [List.cons_append, splitAtChar]
    by_cases hc : c = '\r'
    · subst hc
      have hhead : (l ++ '\n' :: s).head? ≠ some '\n' := by
        cases l with
        | nil => exact absurd rfl hlast
        | cons d l => exact fun he => hl.2 (Option.some.inj he ▸ List.mem_cons_self)
      rw [markdownLines_return hhead, ih hl.2 hlast', if_pos rfl, List.cons_append]
    · rw [markdownLines_cons hc (Ne.symm hl.1), ih hl.2 hlast', if_neg hc,
        extendFirst_append c (splitAtChar_ne_nil '\r' l)]

theorem markdownLines_of_not_mem {l : Text} (hl : '\n' ∉ l) : markdownLines l = splitAtChar '\r' l := by
  induction l with
  | nil => rfl
  | cons c l ih =>
    rw [List.mem_cons, not_or] at hl
    rw [splitAtChar]
    by_cases hc : c = '\r'
    · subst hc
      have hhead : l.head? ≠ some '\n' := fun he => hl.2 (List.mem_of_head? he)
      rw [markdownLines_return hhead, ih hl.2, if_pos rfl]
    · rw [markdownLines_cons hc (Ne.symm hl.1), ih hl.2, if_neg hc]

/-- The lines of texts on lines of their own, none of which ends with a carriage return. -/
theorem markdownLines_intercalate {ls : List Text} (hne : ls ≠ [])
    (h : ∀ l ∈ ls, '\n' ∉ l ∧ l.getLast? ≠ some '\r') :
    markdownLines (List.intercalate ['\n'] ls) = ls.flatMap (splitAtChar '\r') := by
  induction ls with
  | nil => exact absurd rfl hne
  | cons l ls ih =>
    obtain ⟨hl, hlast⟩ := h l List.mem_cons_self
    cases ls with
    | nil => simpa using markdownLines_of_not_mem hl
    | cons l' ls =>
      rw [List.intercalate_cons_cons, List.append_assoc, List.singleton_append, markdownLines_append hl hlast,
        ih (List.cons_ne_nil l' ls) fun l hl => h l (List.mem_cons_of_mem _ hl)]
      rfl

end ApiReference.Markdown
