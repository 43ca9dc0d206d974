import ApiReference.Document.Render
import ApiReference.Proofs.Document.Appending

/-!
# The sections of a document

What `render` writes, in terms of the list of entries: the sections of the published ones, the divider and the
sections of the internal ones, between the header and the footer of a README.

- sorting takes one entry at a time (`ofEntries_cons`), so the groups are two parts of the list, each in order, and
  no entry is lost or doubled (`ofEntries_eq_filter`, `perm_named`);
- a group is written as the sections of its entries with a name (`appendGroup_eq`);
- the document: `render_eq_sections`.
-/

namespace ApiReference.Document

/-! ## Groups -/

/-- The group of an entry: what its first tag with a visibility says, and else what the policy says. -/
def group? (policy : Policy) (e : Entry) : Option Visibility :=
  match e.visibility?, policy with
  | some visibility, _ => some visibility
  | none, .publish => some .published
  | none, .reject => none

/-- The warning about an entry without a visibility. -/
def warnings (index : Nat) (e : Entry) : List Event :=
  if e.visibility? = none then [.assumedPublished index e.displayName?] else []

/-- Sorting takes one entry at a time: it fails at one that has no group, and else puts it in front of its group. -/
theorem ofEntries_cons (policy : Policy) (index : Nat) (e : Entry) (es : List Entry) :
    Groups.ofEntries policy index (e :: es) =
      match group? policy e with
      | none => .error (.untagged index e.displayName?)
      | some visibility => (Groups.ofEntries policy (index + 1) es).map fun g =>
          { g.insert visibility e with warnings := warnings index e ++ g.warnings } := by
  cases hv : e.visibility? with
  | none => cases policy <;> simp [Groups.ofEntries, group?, warnings, hv, Groups.warn, Groups.insert]
  | some visibility =>
    simp only [Groups.ofEntries, group?, warnings, hv]
    cases visibility <;> rfl

/-- Sorted entries are two parts of the list, each in order. -/
theorem ofEntries_eq_filter {policy : Policy} {es : List Entry} {index : Nat} {g : Groups}
    (h : Groups.ofEntries policy index es = .ok g) :
    g.published = es.filter (group? policy · = some .published) ∧
      g.internal = es.filter (group? policy · = some .internal) ∧ ∀ e ∈ es, group? policy e ≠ none := by
  induction es generalizing index g with
  | nil =>
    cases h
    simp
  | cons e es ih =>
    rw [ofEntries_cons] at h
    cases hv : group? policy e with
    | none => simp [hv] at h
    | some visibility =>
      cases hes : Groups.ofEntries policy (index + 1) es with
      | error error => simp [hv, hes, Except.map] at h
      | ok g' =>
        obtain ⟨hp, hi, hall⟩ := ih hes
        simp only [hv, hes, Except.map, Except.ok.injEq] at h
        subst h
        cases visibility <;> simpa [Groups.insert, hv, hp, hi] using hall

/-- Every entry belongs to one of the groups, once. -/
theorem perm_groups {policy : Policy} {es : List Entry} (h : ∀ e ∈ es, group? policy e ≠ none) :
    (es.filter (group? policy · = some .published) ++ es.filter (group? policy · = some .internal)).Perm es := by
  have hnot : es.filter (group? policy · = some .internal) =
      es.filter fun e => !(group? policy e = some .published) := by
    refine List.filter_congr fun e he => ?_
    cases hv : group? policy e with
    | none => exact absurd hv (h e he)
    | some visibility => cases visibility <;> rfl
  rw [hnot]
  exact List.filter_append_perm _ es

/-! ## Entries with a name -/

/-- The entries with a name, each behind its name. -/
def named (es : List Entry) : List (Text × Entry) :=
  es.filterMap fun e => e.displayName?.map (·, e)

/-- The entries of a group that have a name, in the order of the list. -/
def sectionsOf (policy : Policy) (visibility : Visibility) (es : List Entry) : List (Text × Entry) :=
  named (es.filter (group? policy · = some visibility))

/-- Every entry with a name belongs to one of the groups, once. -/
theorem perm_named {policy : Policy} {es : List Entry} (h : ∀ e ∈ es, group? policy e ≠ none) :
    (sectionsOf policy .published es ++ sectionsOf policy .internal es).Perm (named es) := by
  unfold sectionsOf named
  rw [← List.filterMap_append]
  exact (perm_groups h).filterMap _

/-- The sections of entries with a name, one after another. -/
def sectionsText (es : List (Text × Entry)) : Text :=
  es.flatMap fun (name, e) => appendEntry [] name e

/-- A group is written as the sections of its entries with a name. -/
theorem appendGroup_eq (document : Text) (group : List Entry) :
    appendGroup document group = document ++ sectionsText (named group) := by
  unfold appendGroup
  refine (Appending.foldl_eq_flatMap (fun e => ?_) group document).trans ?_
  · cases e.displayName? with
    | none => exact .none
    | some name => exact fun document => appendEntry_eq document name e
  · congr 1
    induction group with
    | nil => rfl
    | cons e group ih =>
      rw [List.flatMap_cons, ih]
      cases hn : e.displayName? <;> simp [named, sectionsText, hn]

/-! ## The document -/

/-- What the header of a README writes, if the document is one. -/
def headerText (o : Options) : Text :=
  match o.readme, o.package with
  | true, some p => (appendHeader [] p o.badge).text
  | _, _ => []

/-- What the footer of a README writes, if the document is one. -/
def footerText (o : Options) : Text :=
  match o.readme, o.package with
  | true, some p => (appendFooter [] p).text
  | _, _ => []

/-- The document of sorted entries, if its header is complete. -/
theorem renderGroups_eq {g : Groups} {frame? : Option Package} {o : Options} {document : Text}
    (h : (renderGroups g frame? o).result = .ok document) :
    document = (frame?.map fun p => (appendHeader [] p o.badge).text).getD [] ++ sectionsText (named g.published) ++
      divider ++ sectionsText (named g.internal) ++ (frame?.map fun p => (appendFooter [] p).text).getD [] := by
  unfold renderGroups at h
  cases frame? with
  | none =>
    simp only [Option.map_none, Option.getD_none, Except.ok.injEq] at h ⊢
    subst h
    simp [appendSections, appendGroup_eq]
  | some p =>
    simp only [Option.map_some, Option.getD_some] at h ⊢
    cases he : (appendHeader [] p o.badge).error? with
    | some error => simp [he] at h
    | none =>
      simp only [he, Except.ok.injEq] at h
      subst h
      rw [appendFooter_eq]
      simp [appendSections, appendGroup_eq]

/-- A document that is rendered has its entries sorted, and is what is written for the two groups. -/
theorem render_ok {es : List Entry} {o : Options} {document : Text} (h : (render es o).result = .ok document) :
    (∀ e ∈ es, group? o.policy e ≠ none) ∧
      document = headerText o ++ sectionsText (sectionsOf o.policy .published es) ++ divider ++
        sectionsText (sectionsOf o.policy .internal es) ++ footerText o := by
  unfold render at h
  cases hf : readmePackage o with
  | error error => simp [hf] at h
  | ok frame? =>
    cases hg : Groups.ofEntries o.policy 0 es with
    | error error => simp [hf, hg] at h
    | ok g =>
      obtain ⟨hp, hi, hall⟩ := ofEntries_eq_filter hg
      simp only [hf, hg] at h
      refine ⟨hall, ?_⟩
      rw [renderGroups_eq h, hp, hi]
      unfold readmePackage at hf
      cases hr : o.readme <;> cases hpk : o.package <;> simp_all [headerText, footerText, sectionsOf]
      all_goals subst hf; simp

/-- **The document is its sections**: the header, the sections of the published entries, the divider, the sections of
the internal entries and the footer. Each entry with a name has one section, in the group that its first tag with a
visibility names; the document depends on the order of the list only through the order in the two groups, and what is
appended by a section, a header or a footer does not depend on what it is appended to. -/
theorem render_eq_sections (es : List Entry) (o : Options) :
    (∀ document, (render es o).result = .ok document →
      document = headerText o ++ sectionsText (sectionsOf o.policy .published es) ++ divider ++
          sectionsText (sectionsOf o.policy .internal es) ++ footerText o ∧
        (sectionsOf o.policy .published es ++ sectionsOf o.policy .internal es).Perm (named es) ∧
        ∀ es' document', (render es' o).result = .ok document' →
          (∀ visibility, sectionsOf o.policy visibility es' = sectionsOf o.policy visibility es) →
            document' = document) ∧
      (∀ document name e, appendEntry document name e = document ++ appendEntry [] name e) ∧
      (∀ document p withBadge, appendHeader document p withBadge =
        { appendHeader [] p withBadge with text := document ++ (appendHeader [] p withBadge).text }) ∧
      ∀ document p, appendFooter document p =
        { appendFooter [] p with text := document ++ (appendFooter [] p).text } := by
  refine ⟨?_, appendEntry_eq, appendHeader_eq, appendFooter_eq⟩
  intro document h
  obtain ⟨hall, hdoc⟩ := render_ok h
  refine ⟨hdoc, perm_named hall, ?_⟩
  intro es' document' h' hsame
  rw [(render_ok h').2, hsame, hsame, hdoc]

/-- A README of an internal entry, a published one that says later that it is internal, and one without a name; and the
same with the entries in another order. -/
theorem render_eq_sections_readme :
    let internal : Entry := ⟨[.api .internal], none, some ⟨[], "b".toList⟩⟩
    let published : Entry := ⟨[.other, .api .published, .api .internal], none, some ⟨[], "a".toList⟩⟩
    let o : Options := ⟨true, false, some ⟨"p".toList, "d".toList, none, none⟩, .publish⟩
    ∃ document, (render [internal, published, ⟨[], none, none⟩] o).result = .ok document ∧
      document = headerText o ++ sectionsText [("a".toList, published)] ++ divider ++
        sectionsText [("b".toList, internal)] ++ footerText o ∧
      ∃ document', (render [published, internal] o).result = .ok document' ∧ document' = document := by
  intro internal published o
  obtain ⟨hdoc, -, hsame⟩ := (render_eq_sections [internal, published, ⟨[], none, none⟩] o).1 _ rfl
  refine ⟨_, rfl, hdoc, _, rfl, hsame [published, internal] _ rfl fun visibility => ?_⟩
  cases visibility <;> rfl

end ApiReference.Document
