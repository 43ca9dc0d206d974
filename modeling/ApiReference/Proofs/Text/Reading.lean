import ApiReference.Proofs.Text.Passing
import Mathlib.Data.List.TakeWhile

/-!
# What is read and what is kept

What a reader has read stands in the text (`exists_of_afterFolded`, `exists_of_past`, `exists_of_upTo`). What a rule
makes of a text is known by induction along the rewriting (`rewrite_induction`): a part is read and replaced, or one
character is kept.

- what holds of each character of the text and of what is written holds of each character of the result
  (`forall_mem_rewrite`);
- a character that the rule never writes was kept, with what is behind it (`exists_of_cons_suffix_rewrite`);
- a rule that never reads over a character rewrites what stands in front of it on its own (`rewrite_append_cons`);
- a spelling is read in the result where it is read in the text (`behind_rewrite`).
-/

namespace ApiReference.Text

/-! ## Readers -/

theorem exists_of_afterFolded {spelling s rest : Text} (h : afterFolded? spelling s = some rest) :
    ∃ read, s = read ++ rest ∧ read.map foldCase = spelling :=
  exists_of_behind h

/-- The beginning of a tag is read from its opening bracket. -/
theorem exists_of_afterFolded_cons (name : Text) {s rest : Text} (h : afterFolded? ('<' :: name) s = some rest) :
    ∃ read, s = '<' :: (read ++ rest) ∧ read.map foldCase = name := by
  obtain ⟨read, rfl, hread⟩ := exists_of_afterFolded h
  obtain ⟨first, read, rfl, hfirst, hname⟩ := List.map_eq_cons_iff.mp hread
  obtain rfl := eq_of_foldCase (by decide) hfirst
  exact ⟨read, rfl, hname⟩

/-- A tag is read from its opening to its closing bracket. -/
theorem exists_of_afterFolded_tag (name : Text) {s rest : Text}
    (h : afterFolded? ('<' :: (name ++ ['>'])) s = some rest) :
    ∃ tag, s = '<' :: (tag ++ '>' :: rest) ∧ tag.map foldCase = name := by
  obtain ⟨read, rfl, hread⟩ := exists_of_afterFolded_cons _ h
  obtain ⟨tag, last, rfl, htag, hlast⟩ := List.map_eq_append_iff.mp hread
  obtain ⟨stop, tail, rfl, hstop, htail⟩ := List.map_eq_cons_iff.mp hlast
  obtain rfl := List.map_eq_nil_iff.mp htail
  obtain rfl := eq_of_foldCase (by decide) hstop
  exact ⟨tag, by simp, htag⟩

theorem exists_of_past {stop : Char} {s rest : Text} (h : past? stop s = some rest) :
    ∃ front, s = front ++ stop :: rest ∧ stop ∉ front := by
  induction s with
  | nil => cases h
  | cons c s ih =>
    rw [past?] at h
    by_cases hc : c = stop
    · rw [if_pos hc] at h
      exact ⟨[], by rw [hc, Option.some.inj h, List.nil_append], List.not_mem_nil⟩
    · rw [if_neg hc] at h
      obtain ⟨front, rfl, hfront⟩ := ih h
      exact ⟨c :: front, rfl, List.not_mem_cons_of_ne_of_not_mem (Ne.symm hc) hfront⟩

/-- A search has gone over the front, and what it found stands behind it. -/
theorem exists_of_upTo {close : Text → Option Text} {s front rest : Text} (h : upTo? close s = some (front, rest)) :
    ∃ t, s = front ++ t ∧ close t = some rest := by
  induction s generalizing front with
  | nil =>
    obtain ⟨last, hclose, he⟩ := Option.map_eq_some_iff.mp h
    obtain ⟨rfl, rfl⟩ := Prod.mk.inj he
    exact ⟨[], rfl, hclose⟩
  | cons c s ih =>
    rw [upTo?] at h
    cases hclose : close (c :: s) with
    | some last =>
      rw [hclose] at h
      obtain ⟨rfl, rfl⟩ := Prod.mk.inj (Option.some.inj h)
      exact ⟨c :: s, rfl, hclose⟩
    | none =>
      rw [hclose] at h
      obtain ⟨⟨front', last⟩, h', he⟩ := Option.map_eq_some_iff.mp h
      obtain ⟨rfl, rfl⟩ := Prod.mk.inj he
      obtain ⟨t, rfl, ht⟩ := ih h'
      exact ⟨t, rfl, ht⟩

/-- A text is the white space at its front and what is left of it. -/
theorem exists_eq_append_trimStart (s : Text) :
    ∃ space, s = space ++ trimStart s ∧ ∀ c ∈ space, isWhiteSpace c = true :=
  ⟨s.takeWhile isWhiteSpace, List.takeWhile_append_dropWhile.symm, fun _ hc => List.mem_takeWhile_imp hc⟩

theorem after_cons (p : Char) (spelling : Text) (c : Char) (s : Text) :
    after? (p :: spelling) (c :: s) = if c = p then after? spelling s else none :=
  rfl

/-- A spelling without the character `mark` is read in front of it or not at all. -/
theorem after_append_cons {spelling : Text} {mark : Char} (h : mark ∉ spelling) (s t : Text) :
    after? spelling (s ++ mark :: t) = (after? spelling s).map (· ++ mark :: t) := by
  induction spelling generalizing s with
  | nil => rfl
  | cons p spelling ih =>
    rw [List.mem_cons, not_or] at h
    cases s with
    | nil => simp [after?, behind?, h.1]
    | cons c s =>
      rw [List.cons_append, after_cons, after_cons]
      by_cases hc : c = p
      · rw [if_pos hc, if_pos hc, ih h.2]
      · rw [if_neg hc, if_neg hc, Option.map_none]

/-- A suffix of two texts begins in the second or in the first of them. -/
theorem cons_suffix_append {c : Char} {s t u : Text} (h : c :: u <:+ s ++ t) :
    c :: u <:+ t ∨ ∃ v, c :: v <:+ s ∧ u = v ++ t := by
  obtain ⟨front, hfront⟩ := h
  rcases List.append_eq_append_iff.mp hfront with ⟨a, rfl, ha⟩ | ⟨a, rfl, ha⟩
  · cases a with
    | nil => exact .inl ⟨[], ha⟩
    | cons d a =>
      obtain ⟨rfl, rfl⟩ := List.cons.inj ha
      exact .inr ⟨a, List.suffix_append front _, rfl⟩
  · exact .inl ⟨a, ha.symm⟩

theorem cons_suffix_of_not_mem {c : Char} {s t u : Text} (hs : c ∉ s) (h : c :: u <:+ s ++ t) : c :: u <:+ t := by
  rcases cons_suffix_append h with h | ⟨v, hv, -⟩
  · exact h
  · exact absurd (hv.subset List.mem_cons_self) hs

/-! ## Rules -/

namespace Rule

variable {r : Rule} {s : Text}

/-- Induction along a rewriting: the rule applies at the front of the text, or one character is kept. -/
theorem rewrite_induction (r : Rule) {motive : Text → Prop} (nil : motive [])
    (apply : ∀ s out rest, r.atFront? s = some (out, rest) → motive rest → motive s)
    (keep : ∀ c s, r.atFront? (c :: s) = none → motive s → motive (c :: s)) (s : Text) : motive s := by
  induction hn : s.length using Nat.strongRecOn generalizing s with
  | ind n ih =>
    subst hn
    cases hs : r.atFront? s with
    | some read =>
      obtain ⟨out, rest⟩ := read
      exact apply s out rest hs (ih _ (r.shorter hs) rest rfl)
    | none =>
      cases s with
      | nil => exact nil
      | cons c s => exact keep c s hs (ih _ (Nat.lt_succ_self _) s rfl)

theorem atFront_nil (r : Rule) : r.atFront? [] = none := by
  cases h : r.atFront? [] with
  | none => rfl
  | some read => exact absurd (r.shorter h) (Nat.not_lt_zero _)

/-- A rule applies only at the character it begins with. -/
theorem BeginsWith.eq_cons {first : Char} (hr : r.BeginsWith first) (h : r.atFront? s ≠ none) :
    ∃ t, s = first :: t := by
  cases s with
  | nil => exact absurd r.atFront_nil h
  | cons c s =>
    by_cases hc : c = first
    · exact ⟨s, by rw [hc]⟩
    · exact absurd (hr c s hc) h

/-- What holds of each character of a text, and of each one that is written if it held of what was read, holds of each
character of the result. -/
theorem forall_mem_rewrite {P : Char → Prop} (h : ∀ s out rest, r.atFront? s = some (out, rest) → (∀ c ∈ s, P c) →
    (∀ c ∈ out, P c) ∧ ∀ c ∈ rest, P c) (hs : ∀ c ∈ s, P c) : ∀ c ∈ r.rewrite s, P c := by
  induction s using r.rewrite_induction with
  | nil => simp
  | apply s out rest hread ih =>
    obtain ⟨hout, hrest⟩ := h s out rest hread hs
    rw [rewrite_of_some hread]
    exact List.forall_mem_append.mpr ⟨hout, ih hrest⟩
  | keep c s hnone ih =>
    obtain ⟨hc, hs⟩ := List.forall_mem_cons.mp hs
    rw [rewrite_of_none hnone]
    exact List.forall_mem_cons.mpr ⟨hc, ih hs⟩

/-- A character that a rule never writes was kept where it stands in the result, and what is behind it is what the rule
makes of what was behind it. -/
theorem exists_of_cons_suffix_rewrite {c : Char} {t : Text}
    (hr : ∀ s out rest, r.atFront? s = some (out, rest) → c ∉ out ∧ rest <:+ s) (h : c :: t <:+ r.rewrite s) :
    ∃ u, c :: u <:+ s ∧ t = r.rewrite u ∧ r.atFront? (c :: u) = none := by
  induction s using r.rewrite_induction with
  | nil => rw [rewrite_nil, List.suffix_nil] at h; cases h
  | apply s out rest hread ih =>
    obtain ⟨hout, hrest⟩ := hr s out rest hread
    rw [rewrite_of_some hread] at h
    obtain ⟨u, hu, hkept⟩ := ih (cons_suffix_of_not_mem hout h)
    exact ⟨u, hu.trans hrest, hkept⟩
  | keep d s hnone ih =>
    rw [rewrite_of_none hnone] at h
    rcases List.suffix_cons_iff.mp h with he | h
    · obtain ⟨rfl, rfl⟩ := List.cons.inj he
      exact ⟨s, List.suffix_refl _, rfl, hnone⟩
    · obtain ⟨u, hu, hkept⟩ := ih h
      exact ⟨u, hu.trans (List.suffix_cons _ _), hkept⟩

/-- A rule that never reads over the character `mark` rewrites what stands in front of it on its own. -/
theorem rewrite_append_cons {mark : Char}
    (h : ∀ c s t, r.atFront? (c :: s ++ mark :: t) =
      (r.atFront? (c :: s)).map fun (out, rest) => (out, rest ++ mark :: t)) (s t : Text) :
    r.rewrite (s ++ mark :: t) = r.rewrite s ++ r.rewrite (mark :: t) := by
  induction s using r.rewrite_induction with
  | nil => simp
  | apply s out rest hread ih =>
    cases s with
    | nil => rw [atFront_nil] at hread; cases hread
    | cons c s =>
      have happ : r.atFront? (c :: s ++ mark :: t) = some (out, rest ++ mark :: t) := by rw [h, hread]; rfl
      rw [rewrite_of_some happ, rewrite_of_some hread, ih, List.append_assoc]
  | keep c s hnone ih =>
    have happ : r.atFront? (c :: (s ++ mark :: t)) = none := by rw [← List.cons_append, h, hnone]; rfl
    rw [List.cons_append, rewrite_of_none happ, rewrite_of_none hnone, ih, List.cons_append]

/-- A spelling is read in the result where it is read in the text, if the rule does not begin inside of it and nothing
that is written does. -/
theorem behind_rewrite {fold : Char → Char} {first : Char} (hr : r.BeginsWith first) {spelling : Text}
    (hfirst : fold first ∉ spelling)
    (hout : ∀ s out rest, r.atFront? s = some (out, rest) → ∃ d t, out = d :: t ∧ fold d ∉ spelling) (s : Text) :
    behind? fold spelling (r.rewrite s) = (behind? fold spelling s).map r.rewrite := by
  induction spelling generalizing s with
  | nil => rfl
  | cons p spelling ih =>
    rw [List.mem_cons, not_or] at hfirst
    cases s with
    | nil => simp [behind?]
    | cons c s =>
      cases hread : r.atFront? (c :: s) with
      | some read =>
        obtain ⟨out, rest⟩ := read
        obtain ⟨d, t, rfl, hd⟩ := hout _ _ _ hread
        obtain ⟨u, hu⟩ := hr.eq_cons (by rw [hread]; exact Option.some_ne_none _)
        rw [List.mem_cons, not_or] at hd
        rw [rewrite_of_some hread, hu, List.cons_append, behind?, if_neg hd.1, behind?, if_neg hfirst.1,
          Option.map_none]
      | none =>
        have hrest : ∀ s out rest, r.atFront? s = some (out, rest) → ∃ d t, out = d :: t ∧ fold d ∉ spelling := by
          intro s out rest h
          obtain ⟨d, t, ht, hd⟩ := hout s out rest h
          exact ⟨d, t, ht, fun hm => hd (List.mem_cons_of_mem _ hm)⟩
        rw [rewrite_of_none hread, behind?, behind?, ih hfirst.2 hrest]
        split
        · rfl
        · rfl

end Rule

end ApiReference.Text
