import ApiReference.Proofs.Document.Agreement

/-!
# Why rendering fails

What can be missing for a document (`Cause`): the package of a README, the visibility of an entry, the address of a
repository, a slug in that address. The causes are looked for in this order, and the first one there is is the error
(`FirstCause`); there is a document exactly if nothing is missing: `render_error_iff_firstCause`.
-/

namespace ApiReference.Document

variable {es : List Entry} {o : Options} {error error' : RenderError}

/-! ## Causes -/

/-- What is missing for a document, whether or not something else is missing too. -/
inductive Cause (es : List Entry) (o : Options) : RenderError → Prop
  | /-- A README is asked for, and there is no package. -/
    packageMissing (hreadme : o.readme = true) (hpackage : o.package = none) : Cause es o .packageMissing
  | /-- Entries without a visibility are rejected, and this is the first one. -/
    untagged {i : Nat} {e : Entry} (hpolicy : o.policy = .reject) (hfirst : FirstUntagged es i e) :
      Cause es o (.untagged i e.displayName?)
  | /-- A README with a badge is asked for, and the repository has no address. -/
    urlMissing {p : Package} (hreadme : o.readme = true) (hbadge : o.badge = true) (hpackage : o.package = some p)
      (hurl : p.repositoryUrl? = none) : Cause es o .urlMissing
  | /-- A README with a badge is asked for, and there is no slug in the address of the repository. -/
    urlUnrecognized {p : Package} {url : Text} (hreadme : o.readme = true) (hbadge : o.badge = true)
      (hpackage : o.package = some p) (hurl : p.repositoryUrl? = some url) (hslug : Slug.ofUrl? url = none) :
      Cause es o (.urlUnrecognized url)

/-- The order in which causes are looked for. -/
def rank : RenderError → Nat
  | .packageMissing => 0
  | .untagged _ _ => 1
  | .urlMissing => 2
  | .urlUnrecognized _ => 3

/-- The cause that is found before all others. -/
structure FirstCause (es : List Entry) (o : Options) (error : RenderError) : Prop where
  cause : Cause es o error
  first : ∀ error', Cause es o error' → rank error ≤ rank error'

/-- There is only one cause of each rank. -/
theorem Cause.eq_of_rank (h : Cause es o error) (h' : Cause es o error') (hrank : rank error = rank error') :
    error = error' := by
  cases h with
  | packageMissing =>
    cases h' with
    | packageMissing => rfl
    | _ => cases hrank
  | untagged _ hfirst =>
    cases h' with
    | untagged _ hfirst' =>
      obtain ⟨rfl, rfl⟩ := hfirst.unique hfirst'
      rfl
    | _ => cases hrank
  | urlMissing =>
    cases h' with
    | urlMissing => rfl
    | _ => cases hrank
  | urlUnrecognized _ _ hpackage hurl _ =>
    cases h' with
    | urlUnrecognized _ _ hpackage' hurl' _ =>
      obtain rfl := Option.some.inj (hpackage.symm.trans hpackage')
      obtain rfl := Option.some.inj (hurl.symm.trans hurl')
      rfl
    | _ => cases hrank

theorem FirstCause.unique (h : FirstCause es o error) (h' : FirstCause es o error') : error = error' :=
  h.cause.eq_of_rank h'.cause (Nat.le_antisymm (h.first _ h'.cause) (h'.first _ h.cause))

/-- Without a README only the visibility of an entry can be missing. -/
theorem Cause.of_plain (h : Cause es o error) (hreadme : o.readme = false) :
    o.policy = .reject ∧ ∃ i e, FirstUntagged es i e := by
  cases h with
  | untagged hpolicy hfirst => exact ⟨hpolicy, _, _, hfirst⟩
  | packageMissing htrue => simp [hreadme] at htrue
  | urlMissing htrue => simp [hreadme] at htrue
  | urlUnrecognized htrue => simp [hreadme] at htrue

/-! ## Sorted entries -/

/-- If the entries are sorted, none of them is a cause. -/
theorem not_firstUntagged {g : Groups} (h : Groups.ofEntries o.policy 0 es = .ok g) (hpolicy : o.policy = .reject)
    (i : Nat) (e : Entry) : ¬FirstUntagged es i e := by
  intro hfirst
  have herror : Groups.ofEntries o.policy 0 es = .error (.untagged (0 + i) e.displayName?) :=
    ofEntries_eq_error_iff.mpr ⟨hpolicy, i, e, hfirst, rfl⟩
  rw [h] at herror
  cases herror

/-- If a README has a package and the entries are sorted, a cause is one for which the header is incomplete. -/
theorem Cause.error?_appendHeader {p : Package} {g : Groups} (hpackage : o.package = some p)
    (hsorted : Groups.ofEntries o.policy 0 es = .ok g) (h : Cause es o error) :
    (appendHeader [] p o.badge).error? = some error := by
  rw [appendHeader_error?_eq_some_iff]
  cases h with
  | packageMissing _ hnone => simp [hpackage] at hnone
  | untagged hpolicy hfirst => exact absurd hfirst (not_firstUntagged hsorted hpolicy _ _)
  | urlMissing _ hbadge hsome hurl =>
    obtain rfl := Option.some.inj (hpackage.symm.trans hsome)
    exact ⟨hbadge, .inl ⟨hurl, rfl⟩⟩
  | urlUnrecognized _ hbadge hsome hurl hslug =>
    obtain rfl := Option.some.inj (hpackage.symm.trans hsome)
    exact ⟨hbadge, .inr ⟨_, hurl, hslug, rfl⟩⟩

/-! ## Rendering -/

/-- An error is the first cause. -/
theorem firstCause_of_render (h : (render es o).result = .error error) : FirstCause es o error := by
  have hcourse := course_render es o
  generalize render es o = outcome at h hcourse
  cases hcourse with
  | packageMissing hreadme hpackage =>
    cases h
    exact ⟨.packageMissing hreadme hpackage, fun _ _ => Nat.zero_le _⟩
  | untagged hpackage hsorted =>
    obtain ⟨hpolicy, i, e, hfirst, heq⟩ := ofEntries_eq_error_iff.mp hsorted
    rw [Nat.zero_add] at heq
    subst heq
    cases h
    refine ⟨.untagged hpolicy hfirst, fun error' h' => ?_⟩
    cases h' with
    | packageMissing hreadme hnone => exact absurd hnone (hpackage hreadme)
    | _ => exact Nat.le_add_left 1 _
  | @incomplete p g error₀ hreadme hpackage hsorted herror =>
    obtain rfl : error₀ = error := by simpa using h
    -- The header is incomplete for one reason only, and every cause is one.
    refine ⟨?_, fun error' h' => ?_⟩
    · obtain ⟨hbadge, ⟨hurl, rfl⟩ | ⟨url, hurl, hslug, rfl⟩⟩ := appendHeader_error?_eq_some_iff.mp herror
      · exact .urlMissing hreadme hbadge hpackage hurl
      · exact .urlUnrecognized hreadme hbadge hpackage hurl hslug
    · obtain rfl := Option.some.inj (herror.symm.trans (h'.error?_appendHeader hpackage hsorted))
      exact Nat.le_refl _
  | plain => cases h
  | framed => cases h

/-- There is no cause if there is a document. -/
theorem not_cause_of_render {document : Text} (h : (render es o).result = .ok document) : ¬Cause es o error := by
  intro hcause
  have hcourse := course_render es o
  generalize render es o = outcome at h hcourse
  cases hcourse with
  | packageMissing => cases h
  | untagged => cases h
  | incomplete => cases h
  | plain hreadme hsorted =>
    obtain ⟨hpolicy, i, e, hfirst⟩ := hcause.of_plain hreadme
    exact not_firstUntagged hsorted hpolicy i e hfirst
  | framed _ hpackage hsorted herror =>
    rw [hcause.error?_appendHeader hpackage hsorted] at herror
    cases herror

/-- There is a document, or there is a first cause. -/
theorem render_ok_or_firstCause (es : List Entry) (o : Options) :
    (∃ document, (render es o).result = .ok document) ∨ ∃ error, FirstCause es o error := by
  cases h : (render es o).result with
  | ok document => exact .inl ⟨document, rfl⟩
  | error error => exact .inr ⟨error, firstCause_of_render h⟩

/-- **The error is the first cause.** Rendering fails exactly if something is missing, with an error that names what is
looked for first: the package, the visibility of an entry, the address of the repository, a slug in that address. The
text names the entry by its place and its name, and quotes the address. Without a README only the visibility of an entry
can be missing, and that of an entry without a name is missed too. -/
theorem render_error_iff_firstCause (es : List Entry) (o : Options) :
    (∀ error, (render es o).result = .error error ↔ FirstCause es o error) ∧
      ((∃ document, (render es o).result = .ok document) ↔ ∀ error, ¬Cause es o error) ∧
      (∀ i e, (RenderError.untagged i (Entry.displayName? e)).message =
        "entry ".toList ++ Nat.toDigits 10 i ++ " (".toList ++ (e.displayName?.getD "<unnamed>".toList) ++
          ") has no @api tag".toList) ∧
      (∀ url, (RenderError.urlUnrecognized url).message =
        "cannot find <org>/<repo>.git in repository url: ".toList ++ url) ∧
      (o.readme = false → o.policy = .publish → ∃ document, (render es o).result = .ok document) ∧
      (o.readme = false → ∀ badge package, render es { o with badge, package } = render es o) ∧
      (o.policy = .reject → ∀ e ∈ es, e.Untagged → ∃ error, (render es o).result = .error error) := by
  have herror : ∀ error, (render es o).result = .error error ↔ FirstCause es o error := by
    refine fun error => ⟨firstCause_of_render, fun hfirst => ?_⟩
    cases h : (render es o).result with
    | ok document => exact absurd hfirst.cause (not_cause_of_render h)
    | error error' => rw [hfirst.unique (firstCause_of_render h)]
  have hok : (∃ document, (render es o).result = .ok document) ↔ ∀ error, ¬Cause es o error := by
    refine ⟨fun ⟨_, h⟩ _ => not_cause_of_render h, fun hnone => ?_⟩
    exact (render_ok_or_firstCause es o).resolve_right fun ⟨error, hfirst⟩ => hnone error hfirst.cause
  refine ⟨herror, hok, fun i e => ?_, fun url => ?_, fun hreadme hpolicy => hok.mpr fun error hcause => ?_,
    render_without_readme, fun hpolicy e he hun => ?_⟩
  · unfold RenderError.message
    rfl
  · unfold RenderError.message
    rfl
  · obtain ⟨hreject, -⟩ := hcause.of_plain hreadme
    rw [hpolicy] at hreject
    cases hreject
  · obtain ⟨i, e', hfirst⟩ := exists_firstUntagged he hun
    obtain ⟨document, h⟩ | ⟨error, h⟩ := render_ok_or_firstCause es o
    · exact absurd (Cause.untagged hpolicy hfirst) (not_cause_of_render h)
    · exact ⟨error, (herror error).mpr h⟩

/-- A README with a badge and without an address: one entry is internal, the next two say nothing of their visibility,
and the first of these has no name. Without the README and with the other policy there is a document. -/
theorem render_error_iff_firstCause_nameless :
    let internal : Entry := ⟨[.api .internal], none, some ⟨[], "b".toList⟩⟩
    let nameless : Entry := ⟨[.other], none, none⟩
    let es := [internal, nameless, ⟨[], none, some ⟨[], "a".toList⟩⟩]
    let o : Options := ⟨true, true, some ⟨"p".toList, [], some (.detailed none), none⟩, .reject⟩
    (render es o).result = .error (.untagged 1 none) ∧ (∃ error, (render es o).result = .error error) ∧
      Cause es o .urlMissing ∧ (∃ document, (render es ⟨false, true, none, .publish⟩).result = .ok document) ∧
      render es ⟨false, false, o.package, .publish⟩ = render es ⟨false, true, none, .publish⟩ := by
  intro internal nameless es o
  have hun : nameless.Untagged := by decide
  have hfirst : FirstUntagged es 1 nameless :=
    firstUntagged_cons_iff.mpr (.inr ⟨by decide, 0, rfl, firstUntagged_cons_iff.mpr (.inl ⟨hun, rfl, rfl⟩)⟩)
  have hcause : FirstCause es o (.untagged 1 none) := by
    refine ⟨.untagged rfl hfirst, fun error' h' => ?_⟩
    cases h' with
    | packageMissing _ hnone => cases hnone
    | _ => exact Nat.le_add_left 1 _
  obtain ⟨herror, -, -, -, -, -, hreject⟩ := render_error_iff_firstCause es o
  obtain ⟨-, -, -, -, hplain, hframe, -⟩ := render_error_iff_firstCause es ⟨false, true, none, .publish⟩
  exact ⟨(herror _).mpr hcause, hreject rfl nameless (List.mem_of_getElem? hfirst.found) hun,
    .urlMissing rfl rfl rfl rfl, hplain rfl rfl, hframe rfl false o.package⟩

end ApiReference.Document
