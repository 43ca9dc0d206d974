import ApiReference.Proofs.Document.Sections
import ApiReference.Proofs.Entry.Lookup

/-!
# Sorting entries

`Groups.ofEntries` goes through the list once and stops at the first entry that has no group. What it answers, for the
whole list:

- it fails exactly if the policy is to reject and some entry has no visibility, with the first such entry
  (`FirstUntagged`) in the error: `ofEntries_eq_error_iff`;
- else its warnings are those about the entries without a visibility, in the order of the list
  (`warnings_of_ofEntries`); the groups themselves are given by `ofEntries_eq_filter`.
-/

namespace ApiReference.Document

open Entry (Untagged visibility?_eq_none_iff)

variable {policy : Policy} {es : List Entry} {e e' : Entry} {i j index : Nat}

theorem group?_eq_none_iff : group? policy e = none ↔ policy = .reject ∧ e.Untagged := by
  rw [← visibility?_eq_none_iff]
  unfold group?
  cases e.visibility? <;> cases policy <;> simp

/-! ## The first entry without a visibility -/

/-- The first entry of a list without a visibility, and its place in the list, counted from zero. -/
structure FirstUntagged (es : List Entry) (index : Nat) (e : Entry) : Prop where
  found : es[index]? = some e
  untagged : e.Untagged
  first : ∀ i < index, ∀ e', es[i]? = some e' → ¬e'.Untagged

/-- There is at most one first entry without a visibility. -/
theorem FirstUntagged.unique (h : FirstUntagged es i e) (h' : FirstUntagged es j e') : i = j ∧ e = e' := by
  have hij : i = j := by
    rcases Nat.lt_trichotomy i j with hlt | heq | hgt
    · exact absurd h.untagged (h'.first i hlt e h.found)
    · exact heq
    · exact absurd h'.untagged (h.first j hgt e' h'.found)
  subst hij
  exact ⟨rfl, Option.some.inj (h.found.symm.trans h'.found)⟩

/-- The first entry without a visibility is the head of the list or the first one of the rest. -/
theorem firstUntagged_cons_iff :
    FirstUntagged (e :: es) i e' ↔
      (e.Untagged ∧ i = 0 ∧ e' = e) ∨ (¬e.Untagged ∧ ∃ j, i = j + 1 ∧ FirstUntagged es j e') := by
  constructor
  · rintro ⟨hfound, hun, hfirst⟩
    cases i with
    | zero =>
      obtain rfl : e = e' := by simpa using hfound
      exact .inl ⟨hun, rfl, rfl⟩
    | succ j =>
      refine .inr ⟨hfirst 0 (Nat.succ_pos j) e rfl, j, rfl, by simpa using hfound, hun, fun k hk e'' he => ?_⟩
      exact hfirst (k + 1) (Nat.succ_lt_succ hk) e'' (by simpa using he)
  · rintro (⟨hun, rfl, rfl⟩ | ⟨hun, j, rfl, hfound, hun', hfirst⟩)
    · exact ⟨rfl, hun, fun k hk => absurd hk (Nat.not_lt_zero k)⟩
    · refine ⟨by simpa using hfound, hun', fun k hk e'' he => ?_⟩
      cases k with
      | zero =>
        obtain rfl : e = e'' := by simpa using he
        exact hun
      | succ k => exact hfirst k (Nat.lt_of_succ_lt_succ hk) e'' (by simpa using he)

/-- If some entry has no visibility, there is a first one. -/
theorem exists_firstUntagged (he : e ∈ es) (hun : e.Untagged) : ∃ i e', FirstUntagged es i e' := by
  induction es with
  | nil => cases he
  | cons e₀ es ih =>
    by_cases h₀ : e₀.Untagged
    · exact ⟨0, e₀, firstUntagged_cons_iff.mpr (.inl ⟨h₀, rfl, rfl⟩)⟩
    · have hes : e ∈ es := (List.mem_cons.mp he).resolve_left fun heq => h₀ (heq ▸ hun)
      obtain ⟨j, e', h⟩ := ih hes
      exact ⟨j + 1, e', firstUntagged_cons_iff.mpr (.inr ⟨h₀, j, rfl, h⟩)⟩

/-! ## Failure -/

/-- **Sorting fails at the first entry without a visibility**, and only if that is to be rejected. -/
theorem ofEntries_eq_error_iff {error : RenderError} :
    Groups.ofEntries policy index es = .error error ↔
      policy = .reject ∧ ∃ i e, FirstUntagged es i e ∧ error = .untagged (index + i) e.displayName? := by
  induction es generalizing index with
  | nil => simpa [Groups.ofEntries] using fun _ i e (h : FirstUntagged [] i e) => by simpa using h.found
  | cons e es ih =>
    rw [ofEntries_cons]
    cases hg : group? policy e with
    | none =>
      obtain ⟨hp, hun⟩ := group?_eq_none_iff.mp hg
      constructor
      · rintro ⟨⟩
        exact ⟨hp, 0, e, firstUntagged_cons_iff.mpr (.inl ⟨hun, rfl, rfl⟩), rfl⟩
      · rintro ⟨-, i, e', hfirst, rfl⟩
        obtain ⟨rfl, rfl⟩ := hfirst.unique (firstUntagged_cons_iff.mpr (.inl ⟨hun, rfl, rfl⟩))
        rfl
    | some visibility =>
      have hmap (r : Except RenderError Groups) (f : Groups → Groups) : r.map f = .error error ↔ r = .error error := by
        cases r <;> simp [Except.map]
      show Except.map _ _ = _ ↔ _
      rw [hmap, ih]
      refine and_congr_right fun hp => ?_
      have hun : ¬e.Untagged := fun hun => by simp [group?_eq_none_iff.mpr ⟨hp, hun⟩] at hg
      constructor
      · rintro ⟨i, e', hfirst, rfl⟩
        refine ⟨i + 1, e', firstUntagged_cons_iff.mpr (.inr ⟨hun, i, rfl, hfirst⟩), ?_⟩
        rw [Nat.add_right_comm, Nat.add_assoc]
      · rintro ⟨i, e', hcons, rfl⟩
        obtain ⟨hun', -⟩ | ⟨-, j, rfl, hfirst⟩ := firstUntagged_cons_iff.mp hcons
        · exact absurd hun' hun
        · exact ⟨j, e', hfirst, by rw [Nat.add_right_comm, Nat.add_assoc]⟩

/-! ## Warnings -/

/-- The warnings about the entries without a visibility, in the order of the list, which is counted from `index`. -/
def allWarnings (index : Nat) (es : List Entry) : List Event :=
  (es.zipIdx index).flatMap fun (e, i) => warnings i e

theorem allWarnings_cons : allWarnings index (e :: es) = warnings index e ++ allWarnings (index + 1) es := by
  simp [allWarnings]

theorem warnings_eq_nil (h : ¬e.Untagged) : warnings index e = [] :=
  if_neg fun hnone => h (visibility?_eq_none_iff.mp hnone)

/-- Sorting warns of the entries without a visibility. -/
theorem warnings_of_ofEntries {g : Groups} (h : Groups.ofEntries policy index es = .ok g) :
    g.warnings = allWarnings index es := by
  induction es generalizing index g with
  | nil =>
    cases h
    rfl
  | cons e es ih =>
    rw [ofEntries_cons] at h
    cases hg : group? policy e with
    | none => simp [hg] at h
    | some visibility =>
      cases hes : Groups.ofEntries policy (index + 1) es with
      | error error => simp [hg, hes, Except.map] at h
      | ok g' =>
        simp only [hg, hes, Except.map, Except.ok.injEq] at h
        subst h
        rw [allWarnings_cons, ← ih hes]

/-- All of them are warnings of that kind. -/
theorem eq_of_mem_allWarnings {event : Event} (h : event ∈ allWarnings index es) :
    ∃ i name, event = .assumedPublished i name := by
  obtain ⟨⟨e, i⟩, -, hmem⟩ := List.mem_flatMap.mp h
  replace hmem : event ∈ warnings i e := hmem
  by_cases hnone : e.visibility? = none
  · rw [warnings, if_pos hnone, List.mem_singleton] at hmem
    exact ⟨i, e.displayName?, hmem⟩
  · rw [warnings, if_neg hnone] at hmem
    cases hmem

/-- There is nothing to warn of if all entries have a visibility. -/
theorem allWarnings_eq_nil (h : ∀ e ∈ es, ¬e.Untagged) : allWarnings index es = [] := by
  induction es generalizing index with
  | nil => rfl
  | cons e es ih =>
    obtain ⟨he, hes⟩ := List.forall_mem_cons.mp h
    rw [allWarnings_cons, warnings_eq_nil he, ih hes, List.nil_append]

end ApiReference.Document
