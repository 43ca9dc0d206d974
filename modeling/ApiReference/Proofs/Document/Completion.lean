import ApiReference.Proofs.Document.Agreement

/-!
# Completing entries

An entry without a visibility can be completed by a tag that publishes it, at any place among its tags
(`Entry.Completed`). The tag changes nothing else, so to publish the entries without a visibility comes to the same as
to complete them first, under either policy; and the two policies come to the same where none is rejected:
`render_completed`.
-/

namespace ApiReference

namespace Entry

/-- An entry completed by a tag that publishes it, if its visibility is not given. -/
inductive Completed : Entry → Entry → Prop
  | /-- The visibility is given. -/
    given {e : Entry} (h : ¬e.Untagged) : Completed e e
  | /-- The visibility is not given, and the tag is put anywhere among the others. -/
    published (front last : List Tag) {description : Option Description} {subject : Option Subject}
      (h : Untagged ⟨front ++ last, description, subject⟩) :
      Completed ⟨front ++ last, description, subject⟩ ⟨front ++ .api .published :: last, description, subject⟩

variable {e e' : Entry}

/-- The tag changes nothing that is looked up but the visibility. -/
theorem Completed.sameContent (h : Completed e e') : SameContent e e' := by
  cases h with
  | given => exact .refl e
  | published front last =>
    refine sameContent_of_lookups (fun hf hne _ => ?_) (fun hf hall _ => ?_) rfl rfl
    · exact (hf.findSome?_insert (t := .api .published) (Ne.symm hne) front last).symm
    · refine (hf.filterMap_insert (t := .api .published) (fun he => hall ?_) front last).symm
      exact he ▸ List.mem_cons_self

/-- The visibility of a completed entry is given. -/
theorem Completed.not_untagged (h : Completed e e') : ¬e'.Untagged := by
  cases h with
  | given h => exact h
  | published => exact fun h => h .published (List.mem_append_right _ List.mem_cons_self)

/-- A completed entry publishes what was not given. -/
theorem Completed.visibility?_eq (h : Completed e e') : e'.visibility? = some (e.visibility?.getD .published) := by
  cases h with
  | given h =>
    cases hv : e.visibility? with
    | none => exact absurd (visibility?_eq_none_iff.mp hv) h
    | some visibility => rfl
  | published front last h =>
    have hfront : front.findSome? Tag.visibility? = none := by
      have hnone := visibility?_eq_none_iff.mpr h
      rw [visibility?, List.findSome?_append] at hnone
      exact (Option.or_eq_none_iff.mp hnone).1
    rw [visibility?_eq_none_iff.mpr h]
    show (front ++ Tag.api .published :: last).findSome? Tag.visibility? = some .published
    rw [List.findSome?_append, hfront]
    rfl

end Entry

namespace Document

open Entry (Completed)

variable {es es' : List Entry} {e e' : Entry} {o : Options}

/-- A completed entry is sorted by either policy as the entry itself is, if it is published. -/
theorem sortedAlike_of_completed (h : Completed e e') (policy : Policy) : SortedAlike .publish policy e e' where
  toSameContent := h.sameContent
  group := by
    unfold group?
    rw [h.visibility?_eq]
    cases e.visibility? <;> rfl

/-- Both policies sort an entry with a visibility alike. -/
theorem sortedAlike_of_given (h : ¬e.Untagged) : SortedAlike .publish .reject e e :=
  sortedAlike_of_completed (.given h) .reject

/-- The policy does not count for the frame. -/
theorem sameFrame_policy (o : Options) (policy policy' : Policy) :
    Options.SameFrame { o with policy } { o with policy := policy' } where
  readme := rfl
  badge _ := rfl
  package _ := by
    cases o.package with
    | none => exact .none
    | some p => exact .some ⟨rfl, rfl, rfl, rfl⟩

/-- What is reported besides the warnings. -/
theorem filter_log_warned {outcome : Outcome} (h : ∀ event ∈ outcome.log, event.isAssumption = false) (index : Nat)
    (es : List Entry) : (outcome.warned (allWarnings index es)).log.filter (!·.isAssumption) = outcome.log := by
  have hwarnings : (allWarnings index es).filter (!·.isAssumption) = [] :=
    List.filter_eq_nil_iff.mpr fun event hevent => by
      obtain ⟨i, name, rfl⟩ := eq_of_mem_allWarnings hevent
      exact Bool.false_ne_true
  have hlog : outcome.log.filter (!·.isAssumption) = outcome.log :=
    List.filter_eq_self.mpr fun event hevent => by simp [h event hevent]
  show (allWarnings index es ++ outcome.log).filter _ = _
  rw [List.filter_append, hwarnings, hlog, List.nil_append]

/-- **The policies agree on completed entries.** To publish the entries without a visibility ends in the same document
or error as to complete them first, and reports the same but for the warnings, under either policy. Where no entry is
rejected, it ends in the same document and reports the same as to reject them. -/
theorem render_completed (es es' : List Entry) (o : Options) :
    (List.Forall₂ Completed es es' → ∀ policy,
      (render es' { o with policy }).result = (render es { o with policy := .publish }).result ∧
        (render es' { o with policy }).log =
          (render es { o with policy := .publish }).log.filter (!·.isAssumption)) ∧
      ∀ document, (render es { o with policy := .reject }).result = .ok document →
        render es { o with policy := .publish } = render es { o with policy := .reject } := by
  constructor
  · intro hes policy
    have hgiven : ∀ e' ∈ es', ¬e'.Untagged := by
      induction hes with
      | nil => exact List.forall_mem_nil _
      | cons he _ ih => exact List.forall_mem_cons.mpr ⟨he.not_untagged, ih⟩
    have halike : List.Forall₂ (SortedAlike .publish policy) es es' :=
      hes.imp fun _ _ he => sortedAlike_of_completed he policy
    obtain ⟨error, h, h'⟩ | ⟨outcome, hlog, h, h'⟩ := render_alike halike (sameFrame_policy o .publish policy)
    · rw [h, h']
      exact ⟨rfl, rfl⟩
    · rw [h, h', filter_log_warned hlog, allWarnings_eq_nil hgiven]
      exact ⟨rfl, rfl⟩
  · intro document hdocument
    have hgiven : ∀ e ∈ es, ¬e.Untagged := fun e he hun =>
      (render_ok hdocument).1 e he (group?_eq_none_iff.mpr ⟨rfl, hun⟩)
    have halike : List.Forall₂ (SortedAlike .publish .reject) es es :=
      List.forall₂_same.mpr fun e he => sortedAlike_of_given (hgiven e he)
    obtain ⟨error, h, h'⟩ | ⟨outcome, -, h, h'⟩ := render_alike halike (sameFrame_policy o .publish .reject)
    · rw [h, h']
    · rw [h, h']

/-- A README without a slug for its badge, of an internal entry, one without tags and one without a visibility and a
name, and the same completed at different places; and, without the README, a document of the first entry. -/
theorem render_completed_three_entries :
    let internal : Entry := ⟨[.api .internal], none, some ⟨[], ['b']⟩⟩
    let es : List Entry := [internal, ⟨[], none, some ⟨[], ['a']⟩⟩, ⟨[.other, .aliased []], none, none⟩]
    let es' : List Entry :=
      [internal, ⟨[.api .published], none, some ⟨[], ['a']⟩⟩, ⟨[.other, .api .published, .aliased []], none, none⟩]
    let o : Options := ⟨true, true, some ⟨['p'], [], some (.shorthand ['u']), none⟩, .reject⟩
    (render es' o).result = (render es { o with policy := .publish }).result ∧
      (render es' o).log = (render es { o with policy := .publish }).log.filter (!·.isAssumption) ∧
      render [internal] ⟨false, false, none, .publish⟩ = render [internal] ⟨false, false, none, .reject⟩ := by
  intro internal es es' o
  have htagless : Completed ⟨[], none, some ⟨[], ['a']⟩⟩ ⟨[.api .published], none, some ⟨[], ['a']⟩⟩ :=
    .published [] [] (by decide)
  have hbetween : Completed ⟨[.other, .aliased []], none, none⟩ ⟨[.other, .api .published, .aliased []], none, none⟩ :=
    .published [.other] [.aliased []] (by decide)
  have hes : List.Forall₂ Completed es es' :=
    .cons (.given (by decide)) (.cons htagless (.cons hbetween .nil))
  obtain ⟨hresult, hlog⟩ := (render_completed es es' o).1 hes .reject
  exact ⟨hresult, hlog, (render_completed [internal] [internal] ⟨false, false, none, .reject⟩).2 _ rfl⟩

end Document

end ApiReference
