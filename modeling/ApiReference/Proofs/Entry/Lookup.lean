import ApiReference.Entry.Lookup
import Mathlib.Data.List.Basic
import Mathlib.Logic.Relation

/-!
# What counts in a list of tags

A lookup takes the tags on one topic (`Tag.Takes`). So a tag on another topic may stand anywhere or be left out
(`Takes.filterMap_insert`), and tags on different topics may stand in any order.

- `Tag.Rearranged` relates two lists of tags that differ in nothing that counts; all lookups give the same in both
  (`Rearranged.findSome?_eq`, `Rearranged.filterMap_eq`);
- `Entry.Agrees` relates two entries of which everything that is looked up is the same, and `Entry.agrees_of_variant`
  says that entries with rearranged tags and the same text and name do;
- `Entry.Untagged` entries are those whose visibility is not given (`visibility?_eq_none_iff`).
-/

namespace ApiReference

/-! ## Lookups -/

namespace Tag

variable {α : Type} {f : Tag → Option α} {topic : Topic}

/-- A lookup takes the tags on one topic and no others. -/
def Takes (f : Tag → Option α) (topic : Topic) : Prop :=
  ∀ t, (f t).isSome ↔ t.topic = topic

theorem takes_visibility : Takes visibility? .visibility := by
  intro t
  cases t <;> simp [visibility?, Tag.topic]

theorem takes_alias : Takes alias? .aliased := by
  intro t
  cases t <;> simp [alias?, Tag.topic]

theorem takes_module : Takes module? .inModule := by
  intro t
  cases t <;> simp [module?, Tag.topic]

theorem takes_returns : Takes returns? .returns := by
  intro t
  cases t <;> simp [returns?, Tag.topic]

theorem takes_param : Takes param? .param := by
  intro t
  cases t <;> simp [param?, Tag.topic]

theorem takes_property : Takes property? .property := by
  intro t
  cases t <;> simp [property?, Tag.topic]

theorem takes_sample : Takes sample? .sample := by
  intro t
  cases t <;> simp [sample?, Tag.topic]

theorem Takes.eq_none (h : Takes f topic) {t : Tag} (ht : t.topic ≠ topic) : f t = none :=
  Option.not_isSome_iff_eq_none.mp fun hs => ht ((h t).mp hs)

/-- A lookup is not affected by a tag on another topic. -/
theorem Takes.filterMap_insert (h : Takes f topic) {t : Tag} (ht : t.topic ≠ topic) (front last : List Tag) :
    (front ++ t :: last).filterMap f = (front ++ last).filterMap f := by
  rw [List.filterMap_append, List.filterMap_cons_none (h.eq_none ht), List.filterMap_append]

theorem Takes.findSome?_insert (h : Takes f topic) {t : Tag} (ht : t.topic ≠ topic) (front last : List Tag) :
    (front ++ t :: last).findSome? f = (front ++ last).findSome? f := by
  rw [← List.head?_filterMap, ← List.head?_filterMap, h.filterMap_insert ht]

/-- A lookup depends on the tags on its topic alone. -/
theorem Takes.filterMap_filter (h : Takes f topic) (ts : List Tag) :
    (ts.filter (·.topic = topic)).filterMap f = ts.filterMap f := by
  rw [List.filterMap_filter]
  refine List.filterMap_congr fun t _ => ?_
  by_cases ht : t.topic = topic
  · simp [ht]
  · simp [ht, h.eq_none ht]

/-! ## Rearranging tags -/

/-- The topics of which only the first tag in a list counts. -/
def firstOnly : List Topic :=
  [.visibility, .aliased, .inModule, .returns]

/-- A change to a list of tags that changes nothing that counts. -/
inductive Change : List Tag → List Tag → Prop
  | /-- The tags are put in another order, but those on one topic stay in order. -/
    reorder {ts ts' : List Tag} (h : ∀ topic, ts.filter (·.topic = topic) = ts'.filter (·.topic = topic)) :
      Change ts ts'
  | /-- A tag that is never looked up is added. -/
    addOther (front last : List Tag) : Change (front ++ last) (front ++ .other :: last)
  | /-- A tag on a topic of which only the first one counts is added behind another one on its topic. -/
    addLater {front : List Tag} {t t' : Tag} (hfirst : t.topic ∈ firstOnly) (hmem : t' ∈ front)
      (htopic : t'.topic = t.topic) (last : List Tag) : Change (front ++ last) (front ++ t :: last)

/-- Two lists of tags that can be changed into each other, step by step, with nothing changed that counts. -/
def Rearranged : List Tag → List Tag → Prop :=
  Relation.EqvGen Change

/-- A change does not affect a lookup of all tags on a topic, if not only the first one counts. -/
theorem Change.filterMap_eq (h : Takes f topic) (hother : topic ≠ .other) (hall : topic ∉ firstOnly)
    {ts ts' : List Tag} (hc : Change ts ts') : ts.filterMap f = ts'.filterMap f := by
  cases hc with
  | reorder hfilter => rw [← h.filterMap_filter ts, hfilter topic, h.filterMap_filter]
  | addOther front last => exact (h.filterMap_insert (t := .other) (Ne.symm hother) front last).symm
  | @addLater front t _ hfirst _ _ last =>
    have ht : t.topic ≠ topic := fun he => hall (he ▸ hfirst)
    exact (h.filterMap_insert ht front last).symm

/-- A change does not affect a lookup of the first tag on a topic. -/
theorem Change.findSome?_eq (h : Takes f topic) (hother : topic ≠ .other) {ts ts' : List Tag}
    (hc : Change ts ts') : ts.findSome? f = ts'.findSome? f := by
  cases hc with
  | reorder hfilter =>
    rw [← List.head?_filterMap, ← List.head?_filterMap, ← h.filterMap_filter ts, hfilter topic,
      h.filterMap_filter]
  | addOther front last => exact (h.findSome?_insert (t := .other) (Ne.symm hother) front last).symm
  | @addLater front t t' _ hmem htopic last =>
    by_cases ht : t.topic = topic
    · -- The tag in front of the new one is found in both lists.
      obtain ⟨a, ha⟩ := Option.isSome_iff_exists.mp ((h t').mpr (htopic.trans ht))
      have hsome : (front.findSome? f).isSome := List.findSome?_isSome_iff.mpr ⟨t', hmem, by simp [ha]⟩
      obtain ⟨b, hb⟩ := Option.isSome_iff_exists.mp hsome
      simp [List.findSome?_append, hb]
    · exact (h.findSome?_insert ht front last).symm

/-- What no change affects is the same in rearranged lists. -/
theorem Rearranged.eq_of_change {β : Type} {g : List Tag → β} (h : ∀ {ts ts'}, Change ts ts' → g ts = g ts')
    {ts ts' : List Tag} (hr : Rearranged ts ts') : g ts = g ts' := by
  induction hr with
  | rel ts ts' hc => exact h hc
  | refl ts => rfl
  | symm ts ts' _ ih => exact ih.symm
  | trans ts ts' ts'' _ _ ih ih' => exact ih.trans ih'

theorem Rearranged.filterMap_eq (h : Takes f topic) (hother : topic ≠ .other) (hall : topic ∉ firstOnly)
    {ts ts' : List Tag} (hr : Rearranged ts ts') : ts.filterMap f = ts'.filterMap f :=
  hr.eq_of_change (g := List.filterMap f) (·.filterMap_eq h hother hall)

theorem Rearranged.findSome?_eq (h : Takes f topic) (hother : topic ≠ .other) {ts ts' : List Tag}
    (hr : Rearranged ts ts') : ts.findSome? f = ts'.findSome? f :=
  hr.eq_of_change (g := List.findSome? f) (·.findSome?_eq h hother)

end Tag

namespace Entry

/-! ## Entries that agree -/

/-- The text of a comment, which is empty if there is none. -/
def fullText (e : Entry) : Text :=
  (e.description.map Description.full).getD []

/-- The name that the line behind the comment declares, which is empty if there is none. -/
def subjectName (e : Entry) : Text :=
  (e.subject.map Subject.name).getD []

/-- Two entries with the same name and the same section. -/
structure SameContent (e e' : Entry) : Prop where
  name : e.displayName? = e'.displayName?
  text : e.fullText = e'.fullText
  params : e.params = e'.params
  properties : e.properties = e'.properties
  samples : e.samples = e'.samples
  returns : e.returns? = e'.returns?

/-- Two entries of which everything that is looked up is the same. -/
structure Agrees (e e' : Entry) : Prop extends SameContent e e' where
  visibility : e.visibility? = e'.visibility?

theorem SameContent.refl (e : Entry) : SameContent e e :=
  ⟨rfl, rfl, rfl, rfl, rfl, rfl⟩

theorem Agrees.refl (e : Entry) : Agrees e e :=
  ⟨.refl e, rfl⟩

theorem displayName?_congr {e e' : Entry} (halias : e.alias? = e'.alias?) (hmodule : e.module? = e'.module?)
    (hsubject : e.subjectName = e'.subjectName) : e.displayName? = e'.displayName? := by
  unfold subjectName at hsubject
  unfold displayName?
  rw [halias, hmodule, hsubject]

/-- Entries have the same content if all lookups give the same, but for that of the visibility. -/
theorem sameContent_of_lookups {e e' : Entry}
    (hfirst : ∀ {α : Type} {f : Tag → Option α} {topic : Tag.Topic}, Tag.Takes f topic → topic ≠ .visibility →
      topic ≠ .other → e.tags.findSome? f = e'.tags.findSome? f)
    (hall : ∀ {α : Type} {f : Tag → Option α} {topic : Tag.Topic}, Tag.Takes f topic → topic ∉ Tag.firstOnly →
      topic ≠ .other → e.tags.filterMap f = e'.tags.filterMap f)
    (htext : e.fullText = e'.fullText) (hsubject : e.subjectName = e'.subjectName) : SameContent e e' where
  name := displayName?_congr (hfirst Tag.takes_alias (by decide) (by decide))
    (hfirst Tag.takes_module (by decide) (by decide)) hsubject
  text := htext
  params := hall Tag.takes_param (by decide) (by decide)
  properties := hall Tag.takes_property (by decide) (by decide)
  samples := hall Tag.takes_sample (by decide) (by decide)
  returns := hfirst Tag.takes_returns (by decide) (by decide)

/-- Two entries that differ in nothing that counts: the tags are rearranged, the text is the same in full, and so is
the name behind the comment. -/
structure Variant (e e' : Entry) : Prop where
  tags : Tag.Rearranged e.tags e'.tags
  text : e.fullText = e'.fullText
  subject : e.subjectName = e'.subjectName

theorem agrees_of_variant {e e' : Entry} (h : Variant e e') : Agrees e e' where
  toSameContent := sameContent_of_lookups (fun hf _ hother => h.tags.findSome?_eq hf hother)
    (fun hf hall hother => h.tags.filterMap_eq hf hother hall) h.text h.subject
  visibility := h.tags.findSome?_eq Tag.takes_visibility (by decide)

/-! ## Entries without a visibility -/

/-- No tag of the entry gives a visibility. -/
def Untagged (e : Entry) : Prop :=
  ∀ visibility, Tag.api visibility ∉ e.tags

theorem visibility?_eq_none_iff {e : Entry} : e.visibility? = none ↔ e.Untagged := by
  unfold visibility? Untagged
  rw [List.findSome?_eq_none_iff]
  constructor
  · intro h visibility hmem
    cases h _ hmem
  · intro h t hmem
    cases t with
    | api visibility => exact absurd hmem (h visibility)
    | _ => rfl

instance (e : Entry) : Decidable e.Untagged :=
  decidable_of_iff _ visibility?_eq_none_iff

end Entry

end ApiReference
