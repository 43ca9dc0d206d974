import ApiReference.Text.Rule

/-!
# Passing over a text

What a reader or a rule does at the front of a text must be known whatever follows. Three relations say so, and each
holds of two texts one after another if it holds of both.

- `Skips close s`: a search for the place where `close` succeeds goes over `s`;
- `Rule.Passes r s t`: rewriting turns `s` into `t` and goes on behind it;
- `PassesAll rs s t`: the rules `rs`, one after another on the whole text, turn `s` into `t` (`PassesAll.foldl_eq`).

A text without the character a reader or rule begins with is skipped and passed as it is (`Skips.of_not_mem`,
`Rule.Passes.of_not_mem`).
-/

namespace ApiReference.Text

/-! ## Readers -/

theorem behind_append {fold : Char → Char} {spelling s : Text} (h : s.map fold = spelling) (rest : Text) :
    behind? fold spelling (s ++ rest) = some rest := by
  induction s generalizing spelling with
  | nil =>
    subst h
    rfl
  | cons c s ih =>
    subst h
    simpa [behind?] using ih rfl

/-- A spelling in small letters is read where it stands. -/
theorem afterFolded_append {s : Text} (h : s.map foldCase = s) (rest : Text) : afterFolded? s (s ++ rest) = some rest :=
  behind_append h rest

/-- What is read folds to the spelling. -/
theorem exists_of_behind {fold : Char → Char} {spelling s rest : Text} (h : behind? fold spelling s = some rest) :
    ∃ read, s = read ++ rest ∧ read.map fold = spelling := by
  induction spelling generalizing s with
  | nil => exact ⟨[], Option.some.inj h, rfl⟩
  | cons p spelling ih =>
    cases s with
    | nil => cases h
    | cons c s =>
      rw [behind?] at h
      by_cases hc : fold c = p
      · obtain ⟨read, rfl, hread⟩ := ih (by rwa [if_pos hc] at h)
        exact ⟨c :: read, rfl, by rw [List.map_cons, hc, hread]⟩
      · rw [if_neg hc] at h
        cases h

/-- What is read is the spelling. -/
theorem eq_append_of_after {spelling s rest : Text} (h : after? spelling s = some rest) : s = spelling ++ rest := by
  obtain ⟨read, rfl, hread⟩ := exists_of_behind h
  rw [← hread, List.map_id]

/-- What folds to a character that is no small letter is this character. -/
theorem eq_of_foldCase {c x : Char} (hx : ¬ ('a' ≤ x ∧ x ≤ 'z')) (h : foldCase c = x) : c = x := by
  unfold foldCase at h
  split at h
  · exact absurd (by rw [← h]; decide) hx
  · split at h
    · exact absurd (by rw [← h]; decide) hx
    · unfold Char.toLower at h
      split at h
      · rename_i hc
        have hv := congrArg (fun d : Char => d.val.toNat) h
        have h₁ := UInt32.le_iff_toNat_le.mp hc.1
        have h₂ := UInt32.le_iff_toNat_le.mp hc.2
        rw [Char.le_def, Char.le_def, UInt32.le_iff_toNat_le, UInt32.le_iff_toNat_le] at hx
        simp at hv h₁ h₂ hx
        omega
      · exact h

/-- Only the character itself folds to an opening bracket. -/
theorem foldCase_ne {c : Char} (h : c ≠ '<') : foldCase c ≠ '<' :=
  fun hc => h (eq_of_foldCase (by decide) hc)

/-- No tag is read where there is no opening bracket. -/
theorem afterFolded_cons_eq_none {spelling s : Text} {c : Char} (h : c ≠ '<') :
    afterFolded? ('<' :: spelling) (c :: s) = none := by
  simp [afterFolded?, behind?, foldCase_ne h]

/-- The first `stop` is the one behind a text without it. -/
theorem past_append {stop : Char} {s : Text} (h : stop ∉ s) (rest : Text) :
    past? stop (s ++ stop :: rest) = some rest := by
  induction s with
  | nil => simp [past?]
  | cons c s ih =>
    simp only [List.mem_cons, not_or] at h
    simp [past?, Ne.symm h.1, ih h.2]

theorem takeWhile_ne_append {stop : Char} {s : Text} (h : stop ∉ s) (rest : Text) :
    (s ++ stop :: rest).takeWhile (· ≠ stop) = s := by
  have hs : ∀ c ∈ s, decide (c ≠ stop) = true := fun c hc => decide_eq_true fun e => h (e ▸ hc)
  rw [List.takeWhile_append_of_pos hs]
  simp

/-! ## Up to a place -/

/-- A search goes over `s`, whatever follows. -/
def Skips (close : Text → Option Text) (s : Text) : Prop :=
  ∀ rest, upTo? close (s ++ rest) = (upTo? close rest).map fun (front, last) => (s ++ front, last)

/-- A search ends where it succeeds. -/
theorem upTo_of_some {close : Text → Option Text} {s rest : Text} (h : close s = some rest) :
    upTo? close s = some ([], rest) := by
  cases s <;> simp [upTo?, h]

/-- What a search has gone over is the front. -/
theorem Skips.upTo_eq {close : Text → Option Text} {s t rest : Text} (hs : Skips close s) (h : close t = some rest) :
    upTo? close (s ++ t) = some (s, rest) := by
  rw [hs t, upTo_of_some h]
  simp

theorem Skips.nil {close : Text → Option Text} : Skips close [] := by
  intro rest
  simp

theorem Skips.append {close : Text → Option Text} {s t : Text} (hs : Skips close s) (ht : Skips close t) :
    Skips close (s ++ t) := by
  intro rest
  rw [List.append_assoc, hs, ht, Option.map_map]
  simp [Function.comp_def]

/-- A search goes over a character at which it fails. -/
theorem Skips.cons {close : Text → Option Text} {c : Char} {s : Text} (h : ∀ rest, close (c :: (s ++ rest)) = none)
    (hs : Skips close s) : Skips close (c :: s) := by
  intro rest
  rw [List.cons_append, upTo?, h rest, hs rest, Option.map_map]
  simp [Function.comp_def]

/-- A search that ends only at the character `first` goes over a text without it. -/
theorem Skips.of_not_mem {close : Text → Option Text} {first : Char} {s : Text}
    (hclose : ∀ c s, c ≠ first → close (c :: s) = none) (h : first ∉ s) : Skips close s := by
  induction s with
  | nil => exact .nil
  | cons c s ih =>
    simp only [List.mem_cons, not_or] at h
    exact .cons (fun rest => hclose c _ (Ne.symm h.1)) (ih h.2)

namespace Rule

/-! ## One rule -/

/-- Whatever follows `s`, the rule rewrites it to `t` and goes on behind it. -/
def Passes (r : Rule) (s t : Text) : Prop :=
  ∀ rest, r.rewrite (s ++ rest) = t ++ r.rewrite rest

/-- The rule applies only at the character `first`. -/
def BeginsWith (r : Rule) (first : Char) : Prop :=
  ∀ c s, c ≠ first → r.atFront? (c :: s) = none

namespace Passes

variable {r : Rule} {s s' t t' : Text}

theorem nil : r.Passes [] [] :=
  fun _ => rfl

theorem append (h : r.Passes s t) (h' : r.Passes s' t') : r.Passes (s ++ s') (t ++ t') := by
  intro rest
  rw [List.append_assoc, h, h', List.append_assoc]

theorem rewrite_eq (h : r.Passes s t) : r.rewrite s = t := by
  simpa using h []

/-- A text at which the rule applies. -/
theorem of_some (h : ∀ rest, r.atFront? (s ++ rest) = some (t, rest)) : r.Passes s t :=
  fun rest => rewrite_of_some (h rest)

/-- A character at which the rule does not apply. -/
theorem cons {c : Char} (h : ∀ rest, r.atFront? (c :: (s ++ rest)) = none) (hs : r.Passes s t) :
    r.Passes (c :: s) (c :: t) := by
  intro rest
  rw [List.cons_append, rewrite_of_none (h rest), hs rest, List.cons_append]

/-- A text without the character at which the rule applies is kept. -/
theorem of_not_mem {first : Char} (hr : r.BeginsWith first) (h : first ∉ s) : r.Passes s s := by
  induction s with
  | nil => exact nil
  | cons c s ih =>
    simp only [List.mem_cons, not_or] at h
    exact cons (fun rest => hr c _ (Ne.symm h.1)) (ih h.2)

end Passes

/-! ## Several rules -/

/-- None of the rules applies where `s` stands, whatever follows. -/
def NoneApplies : List Rule → Text → Prop
  | [], _ => True
  | r :: rs, s => (∀ rest, r.atFront? (s ++ rest) = none) ∧ NoneApplies rs s

/-- A mark at which none of the rules applies is kept. -/
theorem NoneApplies.passes {rs : List Rule} {first : Char} {s : Text} (h : NoneApplies rs (first :: s))
    (hrs : ∀ r ∈ rs, r.BeginsWith first) (hs : first ∉ s) : ∀ r ∈ rs, r.Passes (first :: s) (first :: s) := by
  induction rs with
  | nil => simp
  | cons r rs ih =>
    intro q hq
    rcases List.mem_cons.mp hq with rfl | hq
    · exact .cons h.1 (.of_not_mem (hrs q (by simp)) hs)
    · exact ih h.2 (fun r' hr' => hrs r' (by simp [hr'])) q hq

/-- The rules, one after another on the whole text, turn `s` into `t`, whatever follows. -/
def PassesAll : List Rule → Text → Text → Prop
  | [], s, t => s = t
  | r :: rs, s, t => ∃ u, r.Passes s u ∧ PassesAll rs u t

namespace PassesAll

variable {rs rs' : List Rule} {s s' t t' u : Text}

theorem append (h : PassesAll rs s t) (h' : PassesAll rs s' t') : PassesAll rs (s ++ s') (t ++ t') := by
  induction rs generalizing s s' with
  | nil =>
    cases h
    cases h'
    rfl
  | cons r rs ih =>
    obtain ⟨u, hu, h⟩ := h
    obtain ⟨u', hu', h'⟩ := h'
    exact ⟨u ++ u', hu.append hu', ih h h'⟩

/-- First some rules, then others. -/
theorem trans (h : PassesAll rs s t) (h' : PassesAll rs' t u) : PassesAll (rs ++ rs') s u := by
  induction rs generalizing s with
  | nil =>
    cases h
    exact h'
  | cons r rs ih =>
    obtain ⟨v, hv, h⟩ := h
    exact ⟨v, hv, ih h⟩

theorem of_forall (h : ∀ r ∈ rs, r.Passes s s) : PassesAll rs s s := by
  induction rs with
  | nil => rfl
  | cons r rs ih => exact ⟨s, h r (by simp), ih fun r' hr' => h r' (by simp [hr'])⟩

/-- A text without the character at which the rules apply is kept. -/
theorem of_not_mem {first : Char} (hrs : ∀ r ∈ rs, r.BeginsWith first) (h : first ∉ s) : PassesAll rs s s :=
  of_forall fun r hr => .of_not_mem (hrs r hr) h

theorem nil (rs : List Rule) : PassesAll rs [] [] :=
  of_forall fun _ _ => .nil

/-- A mark is kept up to the rule that applies to it, and what this rule writes is kept by the others. -/
theorem mark (rs rs' : List Rule) {r : Rule} {first : Char} (hrs : ∀ q ∈ rs ++ r :: rs', q.BeginsWith first)
    (hs : first ∉ s) (h : NoneApplies rs (first :: s)) (hr : ∀ rest, r.atFront? (first :: s ++ rest) = some (t, rest))
    (ht : first ∉ t) : PassesAll (rs ++ r :: rs') (first :: s) t := by
  refine trans (of_forall fun q hq => h.passes (fun q hq => hrs q (by simp [hq])) hs q hq) ⟨t, .of_some hr, ?_⟩
  exact of_not_mem (fun q hq => hrs q (by simp [hq])) ht

/-- What the rules make of a text, whatever follows. -/
theorem foldl_append (h : PassesAll rs s t) (rest : Text) :
    rs.foldl (fun s rule => rule.rewrite s) (s ++ rest) = t ++ rs.foldl (fun s rule => rule.rewrite s) rest := by
  induction rs generalizing s rest with
  | nil => exact congrArg (· ++ rest) h
  | cons r rs ih =>
    obtain ⟨u, hu, h⟩ := h
    rw [List.foldl_cons, hu rest, ih h, List.foldl_cons]

/-- What the rules make of a whole text. -/
theorem foldl_eq (h : PassesAll rs s t) : rs.foldl (fun s rule => rule.rewrite s) s = t := by
  induction rs generalizing s with
  | nil => exact h
  | cons r rs ih =>
    obtain ⟨u, hu, h⟩ := h
    rw [List.foldl_cons, hu.rewrite_eq, ih h]

end PassesAll

end Rule

end ApiReference.Text
