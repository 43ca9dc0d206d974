import ApiReference.Proofs.Html.Element
import ApiReference.Html.ToMarkdown
import Mathlib.Data.List.Infix

/-!
# Blank lines and outer white space of Markdown

What `toMarkdown` gives has no two blank lines in a row and no white space at its ends, whatever the HTML is.

- `NoBlankRun` says that nowhere a newline has two blank lines behind it. `collapse` leaves no such place
  (`noBlankRun_collapse`): behind what it writes for a run no blank line follows, and a newline it keeps has one blank
  line behind it in the result only if it has one in the text;
- trimming takes a part of the text (`trim_isInfix`), and no white space is left at its ends (`head_trim`,
  `getLast_trim`).
-/

namespace ApiReference

namespace Markdown

/-! ## Reading blank lines -/

/-- There are blank lines where there is one. -/
theorem afterBlankLines_eq_none_iff (s : Text) : afterBlankLines? s = none ↔ afterBlankLine? s = none := by
  fun_induction afterBlankLine? s with
  | case1 s => simp [afterBlankLines?]
  | case2 s ih => exact ih
  | case3 s ih => exact ih
  | case4 s h₁ h₂ h₃ => rw [afterBlankLines?] <;> simp_all

/-- No blank line follows behind all blank lines. -/
theorem afterBlankLine_of_afterBlankLines {s rest : Text} (h : afterBlankLines? s = some rest) :
    afterBlankLine? rest = none := by
  fun_induction afterBlankLines? s generalizing rest with
  | case1 s ih =>
    cases hs : afterBlankLines? s with
    | none =>
      obtain rfl : s = rest := by simpa [hs] using h
      exact (afterBlankLines_eq_none_iff s).mp hs
    | some r =>
      obtain rfl : r = rest := by simpa [hs] using h
      exact ih hs
  | case2 s ih => exact ih h
  | case3 s ih => exact ih h
  | case4 => simp at h

/-- What follows behind a blank line does not matter to it. -/
theorem afterBlankLine_append {s rest : Text} (h : afterBlankLine? s = some rest) (t : Text) :
    afterBlankLine? (s ++ t) = some (rest ++ t) := by
  fun_induction afterBlankLine? s with
  | case1 s =>
    obtain rfl : s = rest := Option.some.inj h
    rfl
  | case2 s ih => exact ih h
  | case3 s ih => exact ih h
  | case4 => simp at h

/-- There is a run of blank lines behind a newline where two blank lines are. -/
theorem afterBlankRun_eq_none_iff (s : Text) :
    afterBlankRun? ('\n' :: s) = none ↔ ∀ rest, afterBlankLine? s = some rest → afterBlankLine? rest = none := by
  rw [afterBlankRun?, Option.bind_eq_none_iff]
  exact forall₂_congr fun rest _ => afterBlankLines_eq_none_iff rest

theorem afterBlankRun_of_ne {c : Char} (hc : c ≠ '\n') (s : Text) : afterBlankRun? (c :: s) = none := by
  rw [afterBlankRun?]
  rintro t ⟨rfl, -⟩
  exact hc rfl

/-! ## Texts without runs of blank lines -/

/-- Nowhere in the text does a newline have two blank lines behind it. -/
def NoBlankRun (s : Text) : Prop :=
  ∀ t, t <:+ s → afterBlankRun? t = none

theorem noBlankRun_cons {c : Char} {s : Text} (h : afterBlankRun? (c :: s) = none) (hs : NoBlankRun s) :
    NoBlankRun (c :: s) := by
  intro t ht
  rcases List.suffix_cons_iff.mp ht with rfl | ht
  · exact h
  · exact hs t ht

/-- A part of such a text is one. -/
theorem NoBlankRun.of_isInfix {s t : Text} (h : NoBlankRun s) (ht : t <:+: s) : NoBlankRun t := by
  intro u hu
  obtain ⟨front, back, rfl⟩ := ht
  have hsuffix : u ++ back <:+ front ++ t ++ back := by
    obtain ⟨v, rfl⟩ := hu
    exact ⟨front ++ v, by simp⟩
  cases u with
  | nil => rfl
  | cons c u =>
    by_cases hc : c = '\n'
    · subst hc
      have hrun := (afterBlankRun_eq_none_iff _).mp (h _ hsuffix)
      refine (afterBlankRun_eq_none_iff u).mpr fun rest hrest => ?_
      have hback := hrun _ (afterBlankLine_append hrest back)
      cases hr : afterBlankLine? rest with
      | none => rfl
      | some r => rw [afterBlankLine_append hr back] at hback; exact absurd hback nofun
    · exact afterBlankRun_of_ne hc u

/-- Three newlines are a run. -/
theorem NoBlankRun.not_isInfix {s : Text} (h : NoBlankRun s) : ¬ "\n\n\n".toList <:+: s := by
  intro hs
  have := h.of_isInfix hs _ (List.suffix_refl _)
  exact absurd this (by decide)

/-! ## Collapsing -/

theorem collapse_of_some {s rest : Text} (h : afterBlankRun? s = some rest) :
    collapse s = '\n' :: '\n' :: collapse rest := by
  have hrule : blankRun.atFront? s = some ("\n\n".toList, rest) := by simp [blankRun, h]
  exact Text.Rule.rewrite_of_some hrule

theorem collapse_of_none {c : Char} {s : Text} (h : afterBlankRun? (c :: s) = none) :
    collapse (c :: s) = c :: collapse s :=
  Text.Rule.rewrite_of_none (by simp [blankRun, h])

/-- No blank line is put in front. -/
theorem afterBlankLine_collapse_eq_none {s : Text} (h : afterBlankLine? s = none) :
    afterBlankLine? (collapse s) = none := by
  fun_induction afterBlankLine? s with
  | case1 s => cases h
  | case2 s ih => rw [collapse_of_none rfl]; exact ih h
  | case3 s ih => rw [collapse_of_none rfl]; exact ih h
  | case4 s h₁ h₂ h₃ =>
    cases s with
    | nil => simp [collapse, afterBlankLine?]
    | cons c s =>
      have hc : c ≠ '\n' := fun e => h₁ s (e ▸ rfl)
      rw [collapse_of_none (afterBlankRun_of_ne hc s), afterBlankLine?]
      · exact fun t e => hc (List.cons.inj e).1
      · exact fun t e => h₂ s (by rw [(List.cons.inj e).1])
      · exact fun t e => h₃ s (by rw [(List.cons.inj e).1])

/-- A blank line in front that no other follows is kept. -/
theorem afterBlankLine_collapse {s rest : Text} (h : afterBlankLine? s = some rest)
    (hrest : afterBlankLine? rest = none) : afterBlankLine? (collapse s) = some (collapse rest) := by
  fun_induction afterBlankLine? s with
  | case1 s =>
    obtain rfl : s = rest := Option.some.inj h
    have hrun : afterBlankRun? ('\n' :: s) = none :=
      (afterBlankRun_eq_none_iff s).mpr fun r hr => absurd (hr.symm.trans hrest) (Option.some_ne_none r)
    rw [collapse_of_none hrun]
    rfl
  | case2 s ih => rw [collapse_of_none rfl]; exact ih h
  | case3 s ih => rw [collapse_of_none rfl]; exact ih h
  | case4 => cases h

/-- A newline with no run behind it has none behind it in the result. -/
theorem afterBlankRun_collapse {c : Char} {s : Text} (h : afterBlankRun? (c :: s) = none) :
    afterBlankRun? (c :: collapse s) = none := by
  by_cases hc : c = '\n'
  · subst hc
    rw [afterBlankRun_eq_none_iff] at h ⊢
    intro rest hrest
    cases hs : afterBlankLine? s with
    | none => rw [afterBlankLine_collapse_eq_none hs] at hrest; exact absurd hrest nofun
    | some r =>
      rw [afterBlankLine_collapse hs (h r hs)] at hrest
      obtain rfl := Option.some.inj hrest
      exact afterBlankLine_collapse_eq_none (h r hs)
  · exact afterBlankRun_of_ne hc _

/-- Collapsing leaves no run of blank lines. -/
theorem noBlankRun_collapse (s : Text) : NoBlankRun (collapse s) := by
  -- the text is read from its front, a run or a character at a time
  induction hn : s.length using Nat.strong_induction_on generalizing s with
  | _ n ih =>
    subst hn
    cases hrun : afterBlankRun? s with
    | some rest =>
      rw [collapse_of_some hrun]
      have hrest := ih rest.length (length_afterBlankRun_lt hrun) rest rfl
      have hblank : afterBlankLine? (collapse rest) = none := by
        cases s with
        | nil => exact absurd hrun nofun
        | cons c s =>
          have hc : c = '\n' := by
            by_contra hc
            rw [afterBlankRun_of_ne hc] at hrun
            exact absurd hrun nofun
          subst hc
          obtain ⟨_, -, hlines⟩ := Option.bind_eq_some_iff.mp hrun
          exact afterBlankLine_collapse_eq_none (afterBlankLine_of_afterBlankLines hlines)
      have hone : afterBlankRun? ('\n' :: collapse rest) = none :=
        (afterBlankRun_eq_none_iff _).mpr fun r hr => absurd (hr.symm.trans hblank) (Option.some_ne_none r)
      have htwo : afterBlankRun? ('\n' :: '\n' :: collapse rest) = none := by
        rw [afterBlankRun_eq_none_iff]
        intro r hr
        obtain rfl : collapse rest = r := Option.some.inj hr
        exact hblank
      exact noBlankRun_cons htwo (noBlankRun_cons hone hrest)
    | none =>
      cases s with
      | nil =>
        intro t ht
        rw [collapse, Text.Rule.rewrite_nil, List.suffix_nil] at ht
        rw [ht]
        rfl
      | cons c s =>
        rw [collapse_of_none hrun]
        exact noBlankRun_cons (afterBlankRun_collapse hrun) (ih s.length (by simp) s rfl)

end Markdown

/-! ## Trimming -/

namespace Text

theorem trimEnd_isPrefix (s : Text) : trimEnd s <+: s := by
  obtain ⟨space, hs, -, -⟩ := Html.exists_eq_trimEnd_append s
  exact ⟨space, hs.symm⟩

theorem trim_isInfix (s : Text) : trim s <:+: s :=
  (trimEnd_isPrefix _).isInfix.trans (List.dropWhile_suffix _).isInfix

/-- What is no white space is kept, and all in front of it. -/
theorem trimEnd_cons {c : Char} (hc : isWhiteSpace c = false) (s : Text) : trimEnd (c :: s) = c :: trimEnd s := by
  rw [trimEnd, trimEnd, trimStart, trimStart, List.reverse_cons, List.dropWhile_append]
  by_cases hs : (s.reverse.dropWhile isWhiteSpace).isEmpty = true
  · rw [if_pos hs, List.isEmpty_iff.mp hs, List.dropWhile_cons_of_neg (by simp [hc])]
    rfl
  · rw [if_neg hs, List.reverse_append]
    rfl

/-- No white space is left at the end. -/
theorem getLast_trimEnd {s : Text} {c : Char} (h : (trimEnd s).getLast? = some c) : isWhiteSpace c = false := by
  obtain ⟨_, -, hend, -⟩ := Html.exists_eq_trimEnd_append s
  exact hend c h

theorem getLast_trim {s : Text} {c : Char} (h : (trim s).getLast? = some c) : isWhiteSpace c = false :=
  getLast_trimEnd h

/-- No white space is left at the front. -/
theorem head_trimStart {s : Text} {c : Char} (h : (trimStart s).head? = some c) : isWhiteSpace c = false := by
  have hfirst := List.head?_dropWhile_not isWhiteSpace s
  rw [trimStart] at h
  rw [h] at hfirst
  exact hfirst

theorem head_trim {s : Text} {c : Char} (h : (trim s).head? = some c) : isWhiteSpace c = false := by
  obtain ⟨t, ht⟩ := trimEnd_isPrefix (trimStart s)
  refine head_trimStart (s := s) ?_
  rw [← ht, List.head?_append]
  exact congrArg (·.or t.head?) h

/-- A text that begins with no white space. -/
theorem trimStart_eq_self {s : Text} (h : ∀ c, s.head? = some c → isWhiteSpace c = false) : trimStart s = s := by
  cases s with
  | nil => rfl
  | cons c s => exact List.dropWhile_cons_of_neg (by simp [h c rfl])

theorem trimEnd_eq_self {s : Text} (h : Html.EndsSolid s) : trimEnd s = s := by
  rw [trimEnd, trimStart_eq_self fun c hc => h c (by rwa [List.head?_reverse] at hc), List.reverse_reverse]

theorem trim_trim (s : Text) : trim (trim s) = trim s := by
  have hstart : trimStart (trim s) = trim s := trimStart_eq_self fun _ => head_trim
  rw [trim, hstart, trimEnd_eq_self fun _ => getLast_trim]

theorem trimStart_space {space : Text} (h : ∀ c ∈ space, isWhiteSpace c = true) (s : Text) :
    trimStart (space ++ s) = trimStart s :=
  List.dropWhile_append_of_pos h

theorem trimEnd_space {space : Text} (h : ∀ c ∈ space, isWhiteSpace c = true) (s : Text) :
    trimEnd (s ++ space) = trimEnd s := by
  rw [trimEnd, trimEnd, List.reverse_append, trimStart_space fun c hc => h c (List.mem_reverse.mp hc)]

end Text

/-! ## The Markdown of HTML -/

namespace Html

theorem noBlankRun_toMarkdown (s : Text) : Markdown.NoBlankRun (toMarkdown s) :=
  (Markdown.noBlankRun_collapse _).of_isInfix (Text.trim_isInfix _)

end Html

end ApiReference
