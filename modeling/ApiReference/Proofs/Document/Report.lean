import ApiReference.Proofs.Document.Course

/-!
# What rendering reports

The events of a rendering, in terms of the list of entries and the options: the opening (`openingLog`), with a warning
about each entry without a visibility, the sizes of the groups and the badge; an event about each entry in the order of
the document (`documentOrder`, `sectionEvent`); and one about the section on tests (`testsLog`).

- an early failure reports nothing, an incomplete header ends the report after the opening, and else the report is
  complete: `log_of_render_error`, `log_of_render_ok`;
- the events agree with what the document holds: the names of its sections (`sections_of_log`) and the section on tests
  (`testsLog_ne_nil_iff`);
- all of it together: `render_log`.
-/

namespace ApiReference

/-- The name of the section that an event reports. -/
def Event.section? : Event → Option Text
  | .rendering name => some name
  | _ => none

namespace Document

variable {es : List Entry} {o : Options} {g : Groups} {policy : Policy}

/-! ## The parts of a report -/

/-- What is reported of the badge: its address, if the document is a README, a badge is asked for and there is an
address. -/
def badgeLog (o : Options) : List Event :=
  match o.readme, o.badge, o.package.bind Package.repositoryUrl? with
  | true, true, some url => [.badge url]
  | _, _, _ => []

/-- What is reported before the sections: the warnings, the sizes of the groups, and the badge. -/
def openingLog (es : List Entry) (o : Options) : List Event :=
  allWarnings 0 es ++
    [.sorted (es.filter (group? o.policy · = some .published)).length
      (es.filter (group? o.policy · = some .internal)).length o.readme] ++ badgeLog o

/-- The entries in the order of the document: the published ones, then the internal ones. -/
def documentOrder (policy : Policy) (es : List Entry) : List Entry :=
  es.filter (group? policy · = some .published) ++ es.filter (group? policy · = some .internal)

/-- What is reported of an entry: the name of its section, or that it has none. -/
def sectionEvent (e : Entry) : Event :=
  match e.displayName? with
  | some name => .rendering name
  | none => .skipping

/-- What is reported of the section on tests: the name of the package, if the document is a README and there is a
command that runs the tests. -/
def testsLog (o : Options) : List Event :=
  match o.readme, o.package with
  | true, some p => if p.hasTestScript then [.tests p.name] else []
  | _, _ => []

/-- The document before the footer of a README. -/
def bodyText (es : List Entry) (o : Options) : Text :=
  headerText o ++ sectionsText (sectionsOf o.policy .published es) ++ divider ++
    sectionsText (sectionsOf o.policy .internal es)

/-! ## The opening -/

/-- The header of a README reports the badge. -/
theorem appendHeader_log_eq_badgeLog {p : Package} (hreadme : o.readme = true) (hpackage : o.package = some p) :
    (appendHeader [] p o.badge).log = badgeLog o := by
  rw [appendHeader_log]
  unfold badgeLog
  rw [hreadme, hpackage, Option.bind_some]
  cases o.badge with
  | false => rfl
  | true => cases p.repositoryUrl? <;> rfl

theorem badgeLog_of_plain (hreadme : o.readme = false) : badgeLog o = [] := by
  unfold badgeLog
  rw [hreadme]

/-- The opening in terms of the list of entries. -/
theorem opening_eq_openingLog (hsorted : Groups.ofEntries o.policy 0 es = .ok g) :
    opening g o (badgeLog o) = openingLog es o := by
  obtain ⟨hpublished, hinternal, -⟩ := ofEntries_eq_filter hsorted
  rw [opening, openingLog, warnings_of_ofEntries hsorted, hpublished, hinternal]

/-! ## The sections -/

/-- The two groups are reported in the order of the document. -/
theorem groupLog_eq_map (hsorted : Groups.ofEntries o.policy 0 es = .ok g) :
    groupLog g.published ++ groupLog g.internal = (documentOrder o.policy es).map sectionEvent := by
  obtain ⟨hpublished, hinternal, -⟩ := ofEntries_eq_filter hsorted
  rw [documentOrder, List.map_append, hpublished, hinternal]
  rfl

/-- The names that are reported are those of the sections. -/
theorem names_of_map_sectionEvent (policy : Policy) (es : List Entry) :
    ((documentOrder policy es).map sectionEvent).filterMap Event.section? =
      (sectionsOf policy .published es ++ sectionsOf policy .internal es).map Prod.fst := by
  unfold documentOrder sectionsOf named
  rw [← List.filterMap_append, List.filterMap_map, List.map_filterMap]
  refine congrArg (fun f => List.filterMap f _) (funext fun e => ?_)
  show (sectionEvent e).section? = _
  unfold sectionEvent
  cases e.displayName? <;> rfl

/-! ## The footer -/

/-- What the footer of a README writes and reports. -/
theorem footer_of_readme {p : Package} (hreadme : o.readme = true) (hpackage : o.package = some p) (document : Text) :
    (appendFooter document p).log = testsLog o ∧
      footerText o = appendInstallation [] p ++ if p.hasTestScript then testsSection else [] := by
  unfold testsLog footerText
  rw [hreadme, hpackage]
  simp only [appendFooter_eq_ite]
  cases p.hasTestScript with
  | false => exact ⟨rfl, (List.append_nil _).symm⟩
  | true => exact ⟨rfl, rfl⟩

/-- The section on tests is reported exactly if the document ends with it. -/
theorem testsLog_ne_nil_iff {document : Text} (hdocument : document = bodyText es o ++ footerText o) :
    testsLog o ≠ [] ↔ ∃ p, o.readme = true ∧ o.package = some p ∧
      document = bodyText es o ++ appendInstallation [] p ++ testsSection := by
  subst hdocument
  constructor
  · intro hne
    unfold testsLog at hne
    split at hne
    case h_1 p hreadme hpackage =>
      by_cases htests : p.hasTestScript
      · refine ⟨p, hreadme, hpackage, ?_⟩
        rw [(footer_of_readme hreadme hpackage []).2, if_pos htests, List.append_assoc]
      · exact absurd (if_neg htests) hne
    case h_2 => exact absurd rfl hne
  · rintro ⟨p, hreadme, hpackage, heq⟩
    rw [(footer_of_readme hreadme hpackage []).2, List.append_assoc, List.append_cancel_left_eq,
      List.append_cancel_left_eq] at heq
    have htests : p.hasTestScript = true := by
      by_contra hno
      rw [if_neg hno] at heq
      cases heq
    unfold testsLog
    rw [hreadme, hpackage]
    simp [htests]

/-! ## The report -/

/-- Errors that are found before anything is reported. -/
def FoundEarly (error : RenderError) : Prop :=
  error = .packageMissing ∨ ∃ index name, error = .untagged index name

/-- An early failure reports nothing, an incomplete header ends the report after the opening. -/
theorem log_of_render_error {error : RenderError} (h : (render es o).result = .error error) :
    (FoundEarly error ∧ (render es o).log = []) ∨
      (¬FoundEarly error ∧ (∀ e ∈ es, group? o.policy e ≠ none) ∧ (render es o).log = openingLog es o) := by
  have hcourse := course_render es o
  generalize render es o = outcome at h hcourse ⊢
  cases hcourse with
  | packageMissing =>
    cases h
    exact .inl ⟨.inl rfl, rfl⟩
  | untagged _ hsorted =>
    obtain ⟨-, i, e, -, rfl⟩ := ofEntries_eq_error_iff.mp hsorted
    cases h
    exact .inl ⟨.inr ⟨_, _, rfl⟩, rfl⟩
  | incomplete hreadme hpackage hsorted herror =>
    cases h
    refine .inr ⟨?_, (ofEntries_eq_filter hsorted).2.2, ?_⟩
    · obtain ⟨-, ⟨-, rfl⟩ | ⟨url, -, -, rfl⟩⟩ := appendHeader_error?_eq_some_iff.mp herror
      · simp [FoundEarly]
      · simp [FoundEarly]
    · exact appendHeader_log_eq_badgeLog hreadme hpackage ▸ opening_eq_openingLog hsorted
  | plain => cases h
  | framed => cases h

/-- A document comes with a complete report. -/
theorem log_of_render_ok {document : Text} (h : (render es o).result = .ok document) :
    (render es o).log = openingLog es o ++ (documentOrder o.policy es).map sectionEvent ++ testsLog o := by
  have hcourse := course_render es o
  generalize render es o = outcome at h hcourse ⊢
  cases hcourse with
  | packageMissing => cases h
  | untagged => cases h
  | incomplete => cases h
  | plain hreadme hsorted =>
    have htests : testsLog o = [] := by
      unfold testsLog
      rw [hreadme]
    rw [← opening_eq_openingLog hsorted, ← groupLog_eq_map hsorted, badgeLog_of_plain hreadme, htests,
      List.append_nil, List.append_assoc]
  | framed hreadme hpackage hsorted =>
    rw [← opening_eq_openingLog hsorted, ← groupLog_eq_map hsorted,
      ← (footer_of_readme hreadme hpackage _).1, ← appendHeader_log_eq_badgeLog hreadme hpackage, ← List.append_assoc]

/-- The opening reports no sections. -/
theorem section?_of_mem_openingLog {event : Event} (h : event ∈ openingLog es o) :
    event.section? = none ∧ event ≠ .skipping := by
  unfold openingLog badgeLog at h
  rcases List.mem_append.mp h with h | h
  · rcases List.mem_append.mp h with h | h
    · obtain ⟨i, name, rfl⟩ := eq_of_mem_allWarnings h
      exact ⟨rfl, nofun⟩
    · rw [List.mem_singleton] at h
      subst h
      exact ⟨rfl, nofun⟩
  · split at h
    · rw [List.mem_singleton] at h
      subst h
      exact ⟨rfl, nofun⟩
    · cases h

/-- The two sizes that the opening reports add up to the number of entries. -/
theorem length_groups (h : ∀ e ∈ es, group? policy e ≠ none) :
    (es.filter (group? policy · = some .published)).length + (es.filter (group? policy · = some .internal)).length =
      es.length := by
  rw [← List.length_append]
  exact (perm_groups h).length_eq

/-- A complete report names the sections of the document. -/
theorem sections_of_log (policy : Policy) (es es' : List Entry) (o : Options) :
    (openingLog es' o ++ (documentOrder policy es).map sectionEvent ++ testsLog o).filterMap Event.section? =
      (sectionsOf policy .published es ++ sectionsOf policy .internal es).map Prod.fst := by
  have hopening : (openingLog es' o).filterMap Event.section? = [] :=
    List.filterMap_eq_nil_iff.mpr fun event hevent => (section?_of_mem_openingLog hevent).1
  have htests : (testsLog o).filterMap Event.section? = [] := by
    unfold testsLog
    split
    · split <;> rfl
    · rfl
  rw [List.filterMap_append, List.filterMap_append, hopening, htests, names_of_map_sectionEvent, List.nil_append,
    List.append_nil]

/-- **The events agree with what was done.** If the package of a README or the visibility of an entry is missing,
nothing is reported. Else the report opens with a warning about each entry without a visibility, the sizes of the
groups, which add up to the number of entries, and the badge. It ends there, before any section is reported, if the
header is incomplete. With a document there follow an event about each entry, in the order of the document and with the
name in the heading of its section, and one about the section on tests, exactly if the document ends with it. -/
theorem render_log (es : List Entry) (o : Options) :
    (∀ error, (render es o).result = .error error → FoundEarly error → (render es o).log = []) ∧
      (∀ error, (render es o).result = .error error → ¬FoundEarly error →
        (render es o).log = openingLog es o ∧
          (es.filter (group? o.policy · = some .published)).length +
            (es.filter (group? o.policy · = some .internal)).length = es.length) ∧
      (∀ error, (render es o).result = .error error →
        ∀ event ∈ (render es o).log, event.section? = none ∧ event ≠ .skipping) ∧
      (∀ document, (render es o).result = .ok document →
        (render es o).log = openingLog es o ++ (documentOrder o.policy es).map sectionEvent ++ testsLog o ∧
          (es.filter (group? o.policy · = some .published)).length +
            (es.filter (group? o.policy · = some .internal)).length = es.length ∧
          (documentOrder o.policy es).Perm es ∧
          document = bodyText es o ++ footerText o ∧
          (render es o).log.filterMap Event.section? =
            (sectionsOf o.policy .published es ++ sectionsOf o.policy .internal es).map Prod.fst ∧
          (testsLog o ≠ [] ↔ ∃ p, o.readme = true ∧ o.package = some p ∧
            document = bodyText es o ++ appendInstallation [] p ++ testsSection)) ∧
      ∀ name e, "### ".toList ++ name <+: appendEntry [] name e := by
  refine ⟨fun error h hearly => ?_, fun error h hlate => ?_, fun error h event hevent => ?_, fun document h => ?_,
    heading_prefix_appendEntry⟩
  · obtain ⟨-, hlog⟩ | ⟨hlate, -⟩ := log_of_render_error h
    · exact hlog
    · exact absurd hearly hlate
  · obtain ⟨hearly, -⟩ | ⟨-, hall, hlog⟩ := log_of_render_error h
    · exact absurd hearly hlate
    · exact ⟨hlog, length_groups hall⟩
  · obtain ⟨-, hlog⟩ | ⟨-, -, hlog⟩ := log_of_render_error h
    · rw [hlog] at hevent
      cases hevent
    · exact section?_of_mem_openingLog (hlog ▸ hevent)
  · obtain ⟨hall, hdocument⟩ := render_ok h
    refine ⟨log_of_render_ok h, length_groups hall, perm_groups hall, hdocument, ?_, testsLog_ne_nil_iff hdocument⟩
    rw [log_of_render_ok h]
    exact sections_of_log o.policy es es o

/-- A README of an internal entry and two without a visibility, of which one has no name: with all it needs, with an
address that has no slug, and with the policy to reject. -/
theorem render_log_three_entries :
    let es : List Entry :=
      [⟨[.api .internal], none, some ⟨[], ['b']⟩⟩, ⟨[], none, none⟩, ⟨[.aliased ['a']], none, none⟩]
    let o (url : Text) (policy : Policy) : Options :=
      ⟨true, true, some ⟨['p'], [], some (.shorthand url), some ⟨some ['t']⟩⟩, policy⟩
    let warnings : List Event := [.assumedPublished 1 none, .assumedPublished 2 (some ['a'])]
    let url := "h/o/r.git".toList
    (render es (o url .publish)).log =
        warnings ++ [.sorted 2 1 true, .badge url, .skipping, .rendering ['a'], .rendering ['b'], .tests ['p']] ∧
      (render es (o ['u'] .publish)).log = warnings ++ [.sorted 2 1 true, .badge ['u']] ∧
      (∀ event ∈ (render es (o ['u'] .publish)).log, event ≠ .skipping) ∧
      (render es (o ['u'] .reject)).log = [] := by
  intro es o warnings url
  have hlate : ¬FoundEarly (.urlUnrecognized ['u']) := by simp [FoundEarly]
  have hsection := (render_log es (o ['u'] .publish)).2.2.1 (.urlUnrecognized ['u']) rfl
  exact ⟨((render_log es (o url .publish)).2.2.2.1 _ rfl).1,
    ((render_log es (o ['u'] .publish)).2.1 (.urlUnrecognized ['u']) rfl hlate).1,
    fun event hevent => (hsection event hevent).2,
    (render_log es (o ['u'] .reject)).1 (.untagged 1 none) rfl (.inr ⟨1, none, rfl⟩)⟩

end Document

end ApiReference
