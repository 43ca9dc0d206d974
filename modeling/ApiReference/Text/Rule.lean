import ApiReference.Text.Scan

/-!
# Rewriting rules

A rule looks at the front of a text and either does not apply or says what to write and what remains. `rewrite`
applies a rule wherever it can, from left to right: the leftmost place first, and never again within what was just
read or written.

- `rewrite_nil`, `rewrite_of_some` and `rewrite_of_none` say what happens at the front of a text;
- `literal` writes one spelling for another, `spellings` one text for any of several tags.
-/

namespace ApiReference.Text

/-- A rewriting rule: what to write and what remains, if it applies at the front of a text. It reads at least one
character. -/
structure Rule where
  /-- What to write and what remains. -/
  atFront? : Text → Option (Text × Text)
  /-- A rule reads at least one character. -/
  shorter : ∀ {s out rest : Text}, atFront? s = some (out, rest) → rest.length < s.length

namespace Rule

/-! ## Rewriting a text -/

/-- The text with a rule applied wherever it can be, from left to right and to what it has not yet read. -/
def rewrite (r : Rule) : Text → Text
  | [] => []
  | c :: s =>
    match _h : r.atFront? (c :: s) with
    | some (out, rest) => out ++ rewrite r rest
    | none => c :: rewrite r s
termination_by s => s.length
decreasing_by
  · exact r.shorter _h
  · simp

@[simp] theorem rewrite_nil (r : Rule) : r.rewrite [] = [] := by
  rw [rewrite]

/-- Where the rule applies, its text is written and the rewriting goes on behind what it read. -/
theorem rewrite_of_some {r : Rule} {s out rest : Text} (h : r.atFront? s = some (out, rest)) :
    r.rewrite s = out ++ r.rewrite rest := by
  match s, h with
  | [], h => exact absurd (r.shorter h) (by simp)
  | c :: s, h =>
    rw [rewrite]
    split <;> simp_all

/-- Where the rule does not apply, one character is kept. -/
theorem rewrite_of_none {r : Rule} {c : Char} {s : Text} (h : r.atFront? (c :: s) = none) :
    r.rewrite (c :: s) = c :: r.rewrite s := by
  rw [rewrite]
  split <;> simp_all

/-! ## Rules for spellings -/

/-- The rule that writes `new` for the spelling `old`. -/
def literal (old new : Text) (ne : old ≠ []) : Rule where
  atFront? s := (after? old s).map (new, ·)
  shorter h := by
    simp only [Option.map_eq_some_iff, Prod.mk.injEq] at h
    obtain ⟨r, hr, -, rfl⟩ := h
    have := length_after hr
    have := List.length_pos_iff.2 ne
    omega

/-- The rule that writes `new` for any of the spellings `olds`, in letters of any case. -/
def spellings (olds : List Text) (new : Text) (ne : [] ∉ olds) : Rule where
  atFront? s := (olds.findSome? (afterFolded? · s)).map (new, ·)
  shorter h := by
    simp only [Option.map_eq_some_iff, Prod.mk.injEq] at h
    obtain ⟨r, hr, -, rfl⟩ := h
    obtain ⟨old, hold, h⟩ := List.exists_of_findSome?_eq_some hr
    have := length_afterFolded h
    have : old ≠ [] := fun e => ne (e ▸ hold)
    have := List.length_pos_iff.2 this
    omega

end Rule

end ApiReference.Text
