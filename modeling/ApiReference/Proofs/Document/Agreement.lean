import ApiReference.Proofs.Document.Course
import Mathlib.Data.List.Forall2

/-!
# What a document depends on

Two renderings side by side. Rendering sees an entry through its lookups and a package through what a README shows of
it, so two lists of entries and two packages that agree in these give the same document and the same report.

- a section, a group and the frame of a README are the same for what agrees (`appendEntry_congr`, `appendGroup_congr`,
  `appendHeader_congr`);
- entries with the same group and the same content, even under two policies, end in the same outcome up to the warnings
  (`render_alike`);
- entries that agree end in the same outcome: `render_congr`.
-/

namespace ApiReference

/-! ## Packages and options that agree -/

/-- Two packages of which a README shows the same. -/
structure Package.Agrees (p p' : Package) : Prop where
  name : p.name = p'.name
  description : p.description = p'.description
  url : p.repositoryUrl? = p'.repositoryUrl?
  tests : p.hasTestScript = p'.hasTestScript

/-- Two ways to frame a document that come to the same. Without a README, badge and package do not count. -/
structure Options.SameFrame (o o' : Options) : Prop where
  readme : o.readme = o'.readme
  badge : o.readme = true → o.badge = o'.badge
  package : o.readme = true → Option.Rel Package.Agrees o.package o'.package

/-- Two ways to render a document that come to the same. -/
structure Options.Agrees (o o' : Options) : Prop extends SameFrame o o' where
  policy : o.policy = o'.policy

/-- Whether an event is the warning about an entry without a visibility. -/
def Event.isAssumption : Event → Bool
  | .assumedPublished .. => true
  | _ => false

namespace Document

open Entry (SameContent)

variable {es es' : List Entry} {e e' : Entry} {o o' : Options} {p p' : Package} {policy policy' : Policy}

/-! ## Sections and groups -/

/-- Entries with the same content have the same section. -/
theorem appendEntry_congr (h : SameContent e e') (document name : Text) :
    appendEntry document name e = appendEntry document name e' := by
  have htext : (e.description.map Description.full).getD [] = (e'.description.map Description.full).getD [] := h.text
  unfold appendEntry
  rw [h.params, htext, h.properties, h.samples, h.returns]

theorem appendGroup_congr (h : List.Forall₂ SameContent es es') (document : Text) :
    appendGroup document es = appendGroup document es' := by
  unfold appendGroup
  induction h generalizing document with
  | nil => rfl
  | @cons e e' es es' he _ ih =>
    rw [List.foldl_cons, List.foldl_cons, he.name, ih]
    cases e'.displayName? with
    | none => rfl
    | some name => simp only [appendEntry_congr he]

theorem groupLog_congr (h : List.Forall₂ SameContent es es') : groupLog es = groupLog es' := by
  unfold groupLog
  induction h with
  | nil => rfl
  | cons he _ ih => rw [List.map_cons, List.map_cons, he.name, ih]

/-! ## The frame -/

theorem appendHeader_congr (h : p.Agrees p') (document : Text) (withBadge : Bool) :
    appendHeader document p withBadge = appendHeader document p' withBadge := by
  unfold appendHeader appendBadge appendTitle
  rw [h.name, h.description, h.url]

theorem appendFooter_congr (h : p.Agrees p') (document : Text) :
    appendFooter document p = appendFooter document p' := by
  unfold appendFooter appendInstallation
  rw [h.name, h.tests]

/-- Either both documents are READMEs without a package, or both have a frame that comes to the same. -/
theorem readmePackage_alike (h : o.SameFrame o') :
    (readmePackage o = .error .packageMissing ∧ readmePackage o' = .error .packageMissing) ∨
      ∃ frame? frame?', readmePackage o = .ok frame? ∧ readmePackage o' = .ok frame?' ∧
        Option.Rel (fun p p' => p.Agrees p' ∧ o.badge = o'.badge) frame? frame?' := by
  unfold readmePackage
  rw [← h.readme]
  cases hreadme : o.readme with
  | false => exact .inr ⟨none, none, rfl, rfl, .none⟩
  | true =>
    have hpackage := h.package hreadme
    generalize o.package = package at hpackage
    generalize o'.package = package' at hpackage
    cases hpackage with
    | none => exact .inl ⟨rfl, rfl⟩
    | some hp => exact .inr ⟨_, _, rfl, rfl, .some ⟨hp, h.badge hreadme⟩⟩

/-! ## Sorting -/

/-- Two entries with the same content that each policy sorts into the same group. -/
structure SortedAlike (policy policy' : Policy) (e e' : Entry) : Prop extends SameContent e e' where
  group : group? policy e = group? policy' e'

/-- Groups of entries with the same content. -/
structure Groups.Alike (g g' : Groups) : Prop where
  published : List.Forall₂ SameContent g.published g'.published
  internal : List.Forall₂ SameContent g.internal g'.internal

/-- One more entry on both sides. -/
theorem Groups.Alike.insert {g g' : Groups} (h : g.Alike g') (he : SameContent e e') (visibility : Visibility) :
    (g.insert visibility e).Alike (g'.insert visibility e') := by
  cases visibility with
  | published => exact ⟨.cons he h.published, h.internal⟩
  | internal => exact ⟨h.published, .cons he h.internal⟩

/-- Entries that are sorted alike fail at the same entry or give groups that are alike. -/
theorem ofEntries_alike (h : List.Forall₂ (SortedAlike policy policy') es es') (index : Nat) :
    (∃ error, Groups.ofEntries policy index es = .error error ∧ Groups.ofEntries policy' index es' = .error error) ∨
      ∃ g g', Groups.ofEntries policy index es = .ok g ∧ Groups.ofEntries policy' index es' = .ok g' ∧ g.Alike g' := by
  induction h generalizing index with
  | nil => exact .inr ⟨_, _, rfl, rfl, .nil, .nil⟩
  | @cons e e' es es' he _ ih =>
    simp only [ofEntries_cons, ← he.group, ← he.name]
    cases group? policy e with
    | none => exact .inl ⟨_, rfl, rfl⟩
    | some visibility =>
      obtain ⟨error, hes, hes'⟩ | ⟨g, g', hes, hes', hg⟩ := ih (index + 1)
      · rw [hes, hes']
        exact .inl ⟨error, rfl, rfl⟩
      · have hinsert := hg.insert he.toSameContent visibility
        rw [hes, hes']
        exact .inr ⟨_, _, rfl, rfl, hinsert.published, hinsert.internal⟩

/-! ## Rendering -/

/-- The same groups without the warnings. -/
def Groups.unwarned (g : Groups) : Groups :=
  { g with warnings := [] }

/-- An outcome with warnings in front of what else is reported. -/
def Outcome.warned (warnings : List Event) (outcome : Outcome) : Outcome :=
  { outcome with log := warnings ++ outcome.log }

/-- The warnings stand in front of all else that is reported, and count for nothing else. -/
theorem renderGroups_eq_warned (g : Groups) (frame? : Option Package) (o : Options) :
    renderGroups g frame? o = (renderGroups g.unwarned frame? o).warned g.warnings := by
  cases frame? with
  | none => simp [renderGroups_none, Outcome.warned, Groups.unwarned, opening, appendSections]
  | some p =>
    cases h : (appendHeader [] p o.badge).error? with
    | some error => simp [renderGroups_incomplete _ h, Outcome.warned, Groups.unwarned, opening]
    | none => simp [renderGroups_complete _ h, Outcome.warned, Groups.unwarned, opening, appendSections]

/-- No other warnings are given. -/
theorem isAssumption_renderGroups (g : Groups) (frame? : Option Package) (o : Options) :
    ∀ event ∈ (renderGroups g.unwarned frame? o).log, event.isAssumption = false := by
  have hgroup (group : List Entry) : ∀ event ∈ groupLog group, event.isAssumption = false := by
    refine List.forall_mem_map.mpr fun e _ => ?_
    cases e.displayName? <;> rfl
  have hopening (badge : List Event) (hbadge : ∀ event ∈ badge, event.isAssumption = false) :
      ∀ event ∈ opening g.unwarned o badge, event.isAssumption = false :=
    List.forall_mem_cons.mpr ⟨rfl, hbadge⟩
  cases frame? with
  | none =>
    rw [renderGroups_none]
    exact List.forall_mem_append.mpr
      ⟨List.forall_mem_append.mpr ⟨hopening [] (List.forall_mem_nil _), hgroup _⟩, hgroup _⟩
  | some p =>
    have hheader : ∀ event ∈ (appendHeader [] p o.badge).log, event.isAssumption = false := by
      rw [appendHeader_log]
      cases o.badge <;> cases p.repositoryUrl? <;> simp [Event.isAssumption]
    have hfooter (document : Text) : ∀ event ∈ (appendFooter document p).log, event.isAssumption = false := by
      rw [appendFooter_eq_ite]
      cases p.hasTestScript <;> simp [Event.isAssumption]
    cases h : (appendHeader [] p o.badge).error? with
    | some error =>
      rw [renderGroups_incomplete _ h]
      exact hopening _ hheader
    | none =>
      rw [renderGroups_complete _ h]
      simp only [List.forall_mem_append]
      exact ⟨⟨⟨hopening _ hheader, hgroup _⟩, hgroup _⟩, hfooter _⟩

theorem appendSections_congr {g g' : Groups} (h : g.Alike g') (document : Text) :
    appendSections document g = appendSections document g' := by
  unfold appendSections
  rw [appendGroup_congr h.published, appendGroup_congr h.internal]

theorem opening_congr {g g' : Groups} (h : g.Alike g') (hreadme : o.readme = o'.readme) (badge : List Event) :
    opening g.unwarned o badge = opening g'.unwarned o' badge := by
  unfold opening Groups.unwarned
  rw [h.published.length_eq, h.internal.length_eq, hreadme]

/-- Groups that are alike, in frames that come to the same, end in the same outcome up to the warnings. -/
theorem renderGroups_alike {g g' : Groups} {frame? frame?' : Option Package} (h : g.Alike g')
    (hreadme : o.readme = o'.readme)
    (hframe : Option.Rel (fun p p' => p.Agrees p' ∧ o.badge = o'.badge) frame? frame?') :
    renderGroups g.unwarned frame? o = renderGroups g'.unwarned frame?' o' := by
  have halike : g.unwarned.Alike g'.unwarned := ⟨h.published, h.internal⟩
  cases hframe with
  | none =>
    rw [renderGroups_none, renderGroups_none, appendSections_congr halike, opening_congr h hreadme,
      groupLog_congr halike.published, groupLog_congr halike.internal]
  | @some p p' hp =>
    obtain ⟨hp, hbadge⟩ := hp
    have hheader : appendHeader [] p o.badge = appendHeader [] p' o'.badge := by rw [hbadge, appendHeader_congr hp]
    cases herror : (appendHeader [] p o.badge).error? with
    | some error =>
      rw [renderGroups_incomplete _ herror, renderGroups_incomplete _ (hheader ▸ herror), hheader,
        opening_congr h hreadme]
    | none =>
      rw [renderGroups_complete _ herror, renderGroups_complete _ (hheader ▸ herror), hheader,
        opening_congr h hreadme, appendSections_congr halike, appendFooter_congr hp,
        groupLog_congr halike.published, groupLog_congr halike.internal]

/-- **Entries that are sorted alike are rendered alike**: either nothing is reported and both fail with the same error,
or both end in the same outcome, each after its own warnings. -/
theorem render_alike (hes : List.Forall₂ (SortedAlike o.policy o'.policy) es es') (ho : o.SameFrame o') :
    (∃ error, render es o = ⟨.error error, []⟩ ∧ render es' o' = ⟨.error error, []⟩) ∨
      ∃ outcome : Outcome, (∀ event ∈ outcome.log, event.isAssumption = false) ∧
        render es o = outcome.warned (allWarnings 0 es) ∧ render es' o' = outcome.warned (allWarnings 0 es') := by
  unfold render
  obtain ⟨hf, hf'⟩ | ⟨frame?, frame?', hf, hf', hframe⟩ := readmePackage_alike ho
  · rw [hf, hf']
    exact .inl ⟨_, rfl, rfl⟩
  · rw [hf, hf']
    obtain ⟨error, hg, hg'⟩ | ⟨g, g', hg, hg', halike⟩ := ofEntries_alike hes 0
    · rw [hg, hg']
      exact .inl ⟨error, rfl, rfl⟩
    · rw [hg, hg', ← warnings_of_ofEntries hg, ← warnings_of_ofEntries hg']
      refine .inr ⟨renderGroups g.unwarned frame? o, isAssumption_renderGroups g frame? o,
        renderGroups_eq_warned g frame? o, ?_⟩
      rw [renderGroups_alike halike ho.readme hframe]
      exact renderGroups_eq_warned g' frame?' o'

/-! ## Entries that agree -/

/-- Entries that agree give the same warnings. -/
theorem allWarnings_congr (h : List.Forall₂ Entry.Agrees es es') (index : Nat) :
    allWarnings index es = allWarnings index es' := by
  induction h generalizing index with
  | nil => rfl
  | cons he _ ih => rw [allWarnings_cons, allWarnings_cons, ih, warnings, warnings, he.visibility, he.name]

/-- Entries that agree are sorted alike by one policy. -/
theorem sortedAlike_of_agrees (h : e.Agrees e') : SortedAlike policy policy e e' where
  toSameContent := h.toSameContent
  group := by
    unfold group?
    rw [h.visibility]

theorem render_eq_of_agrees (hes : List.Forall₂ Entry.Agrees es es') (ho : o.Agrees o') :
    render es o = render es' o' := by
  have halike : List.Forall₂ (SortedAlike o.policy o'.policy) es es' :=
    hes.imp fun _ _ he => ho.policy ▸ sortedAlike_of_agrees he
  obtain ⟨error, h, h'⟩ | ⟨outcome, -, h, h'⟩ := render_alike halike ho.toSameFrame
  · rw [h, h']
  · rw [h, h', allWarnings_congr hes]

/-- Packages that agree give the same documents. -/
theorem render_package_congr (h : p.Agrees p') (es : List Entry) (o : Options) :
    render es { o with package := some p } = render es { o with package := some p' } :=
  render_eq_of_agrees (List.forall₂_same.mpr fun e _ => .refl e) ⟨⟨rfl, fun _ => rfl, fun _ => .some h⟩, rfl⟩

/-- Badge and package do not count without a README. -/
theorem render_without_readme (h : o.readme = false) (badge : Bool) (package : Option Package) :
    render es { o with badge, package } = render es o := by
  have hno : ¬o.readme = true := by simp [h]
  exact render_eq_of_agrees (List.forall₂_same.mpr fun e _ => .refl e)
    ⟨⟨rfl, fun hreadme => absurd hreadme hno, fun hreadme => absurd hreadme hno⟩, rfl⟩

/-- **Nothing else counts.** Two renderings end in the same document or error, and report the same, if their entries
agree one by one, and their options do, in all that is looked up. So the tags of an entry may be rearranged, the summary
and the body of its text and the kind of its subject may be anything, and it is all the same how a package writes the
address of its repository, or that it has none, or that it has no command to run its tests. -/
theorem render_congr (es es' : List Entry) (o o' : Options) :
    (List.Forall₂ Entry.Agrees es es' → o.Agrees o' → render es o = render es' o') ∧
      (List.Forall₂ Entry.Variant es es' → o.Agrees o' → render es o = render es' o') ∧
      (∀ (p : Package) url,
        render es { o with package := some { p with repository := some (.shorthand url) } } =
          render es { o with package := some { p with repository := some (.detailed (some url)) } }) ∧
      (∀ p : Package,
        render es { o with package := some { p with repository := none } } =
          render es { o with package := some { p with repository := some (.detailed none) } }) ∧
      ∀ (p : Package) scripts, { p with scripts }.hasTestScript = p.hasTestScript →
        render es { o with package := some { p with scripts } } = render es { o with package := some p } := by
  refine ⟨render_eq_of_agrees, fun hes => render_eq_of_agrees (hes.imp fun _ _ => Entry.agrees_of_variant),
    fun p url => render_package_congr ?_ es o, fun p => render_package_congr ?_ es o,
    fun p scripts htests => render_package_congr ?_ es o⟩
  · exact ⟨rfl, rfl, rfl, rfl⟩
  · exact ⟨rfl, rfl, rfl, rfl⟩
  · exact ⟨rfl, rfl, rfl, htests⟩

/-- Two lists of entries of which everything that is looked up is the same. The first entry takes its name from an alias
or from its module; the second one has its tags in another order, with a tag that is never looked up and another
visibility behind the one that counts. The packages write the address of their repository in two ways, and have
different commands to run their tests. -/
theorem render_congr_rearranged :
    let named : Entry := ⟨[.aliased "lib.a".toList, .api .internal], none, none⟩
    let named' : Entry := ⟨[.api .internal, .inModule "lib/a".toList], some ⟨[], ['x'], []⟩, some ⟨[], ['y']⟩⟩
    let f : FieldDoc := ⟨['x'], [], [], false, []⟩
    let e : Entry := ⟨[.api .published, .param f, .sample ['s']], some ⟨['t'], [], []⟩, some ⟨[], ['b']⟩⟩
    let e' : Entry := ⟨[.other, .sample ['s'], .api .published, .param f, .api .internal], some ⟨['t'], ['u'], ['v']⟩,
      some ⟨['k'], ['b']⟩⟩
    let p (r : Repository) (command : Text) : Package := ⟨['p'], ['d'], some r, some ⟨some command⟩⟩
    let o : Options := ⟨true, true, some (p (.shorthand "h/o/r.git".toList) ['t']), .reject⟩
    let o' : Options := ⟨true, true, some (p (.detailed (some "h/o/r.git".toList)) ['u']), .reject⟩
    render [named, e] o = render [named', e'] o' ∧ render [e] o = render [e'] o' ∧
      render [e] { o with package := some (p (.shorthand []) ['t']) } =
        render [e] { o with package := some (p (.shorthand []) ['u']) } := by
  intro named named' f e e' p o o'
  have hvariant : Entry.Variant e e' := by
    refine ⟨?_, rfl, rfl⟩
    have hreorder : Tag.Change [.api .published, .param f, .sample ['s']] [.sample ['s'], .api .published, .param f] :=
      .reorder fun topic => by cases topic <;> rfl
    have hmem : Tag.api .published ∈ [.sample ['s'], .api .published, .param f] := .tail _ (.head _)
    have hlater : Tag.Change ([.sample ['s'], .api .published, .param f] ++ [])
        ([.sample ['s'], .api .published, .param f] ++ [.api .internal]) :=
      .addLater (t := .api .internal) List.mem_cons_self hmem rfl []
    have hother : Tag.Change ([] ++ [.sample ['s'], .api .published, .param f, .api .internal])
        ([] ++ .other :: [.sample ['s'], .api .published, .param f, .api .internal]) := .addOther [] _
    exact .trans _ _ _ (.rel _ _ hreorder) (.trans _ _ _ (.rel _ _ hlater) (.rel _ _ hother))
  have hnamed : Entry.Agrees named named' := ⟨⟨by decide, rfl, rfl, rfl, rfl, rfl⟩, rfl⟩
  have ho : o.Agrees o' := ⟨⟨rfl, fun _ => rfl, fun _ => .some ⟨rfl, rfl, rfl, rfl⟩⟩, rfl⟩
  exact ⟨(render_congr _ _ o o').1 (.cons hnamed (.cons (Entry.agrees_of_variant hvariant) .nil)) ho,
    (render_congr _ _ o o').2.1 (.cons hvariant .nil) ho,
    (render_congr [e] [e] o o).2.2.2.2 (p (.shorthand []) ['u']) (some ⟨some ['t']⟩) rfl⟩

end Document

end ApiReference
