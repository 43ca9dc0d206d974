import ApiReference.Proofs.Document.Sorting

/-!
# The course of rendering

Rendering can end in five ways (`Course`): two before anything is reported, one in the header of a README, and two with
a document. Every rendering goes one of them (`course_render`), so what holds in each of the five holds of `render`.

The header of a README reports the address of the badge it is asked for (`appendHeader_log`), and it is incomplete
exactly if that badge is missing (`appendHeader_error?_eq_some_iff`). The footer has a section on tests and reports it
exactly if there is a command that runs them (`appendFooter_eq_ite`).
-/

namespace ApiReference.Document

variable {es : List Entry} {o : Options}

/-! ## The frame of a README -/

/-- The header reports the address of the badge, if it is asked for and there is one. -/
theorem appendHeader_log (document : Text) (p : Package) (withBadge : Bool) :
    (appendHeader document p withBadge).log = if withBadge then (p.repositoryUrl?.map Event.badge).toList else [] := by
  unfold appendHeader
  cases withBadge with
  | false => simp
  | true =>
    cases hu : p.repositoryUrl? with
    | none => simp [appendBadge, hu]
    | some url => cases hs : Slug.ofUrl? url <;> simp [appendBadge, hu, hs]

/-- The header is incomplete if a badge is asked for, and the repository has no address or none with a slug. -/
theorem appendHeader_error?_eq_some_iff {document : Text} {p : Package} {withBadge : Bool} {error : RenderError} :
    (appendHeader document p withBadge).error? = some error ↔
      withBadge = true ∧ ((p.repositoryUrl? = none ∧ error = .urlMissing) ∨
        ∃ url, p.repositoryUrl? = some url ∧ Slug.ofUrl? url = none ∧ error = .urlUnrecognized url) := by
  unfold appendHeader
  cases withBadge with
  | false => simp
  | true =>
    cases hu : p.repositoryUrl? with
    | none => simp [appendBadge, hu, eq_comm]
    | some url => cases hs : Slug.ofUrl? url <;> simp [appendBadge, hu, hs, eq_comm]

/-- How to run the tests of a package. -/
def testsSection : Text :=
  "## Tests\n\n```sh\n$ npm test\n```\n\n".toList

theorem appendFooter_eq_ite (document : Text) (p : Package) :
    appendFooter document p =
      if p.hasTestScript then ⟨appendInstallation document p ++ testsSection, [.tests p.name], none⟩
      else ⟨appendInstallation document p, [], none⟩ := rfl

/-- What is reported before the sections of the entries: the warnings, the sizes of the groups, and the badge. -/
def opening (g : Groups) (o : Options) (badge : List Event) : List Event :=
  g.warnings ++ [.sorted g.published.length g.internal.length o.readme] ++ badge

theorem renderGroups_none (g : Groups) (o : Options) :
    renderGroups g none o =
      ⟨.ok (appendSections [] g), opening g o [] ++ groupLog g.published ++ groupLog g.internal⟩ := by
  simp [renderGroups, opening]

theorem renderGroups_incomplete {p : Package} {error : RenderError} (g : Groups)
    (h : (appendHeader [] p o.badge).error? = some error) :
    renderGroups g (some p) o = ⟨.error error, opening g o (appendHeader [] p o.badge).log⟩ := by
  simp [renderGroups, opening, h]

theorem renderGroups_complete {p : Package} (g : Groups) (h : (appendHeader [] p o.badge).error? = none) :
    renderGroups g (some p) o =
      ⟨.ok (appendFooter (appendSections (appendHeader [] p o.badge).text g) p).text,
        opening g o (appendHeader [] p o.badge).log ++ groupLog g.published ++ groupLog g.internal ++
          (appendFooter (appendSections (appendHeader [] p o.badge).text g) p).log⟩ := by
  simp [renderGroups, opening, h]

/-! ## The course -/

/-- The ways in which rendering can end. -/
inductive Course (es : List Entry) (o : Options) : Outcome → Prop
  | packageMissing (hreadme : o.readme = true) (hpackage : o.package = none) :
    Course es o ⟨.error .packageMissing, []⟩
  | untagged {error : RenderError} (hpackage : o.readme = true → o.package ≠ none)
      (hsorted : Groups.ofEntries o.policy 0 es = .error error) : Course es o ⟨.error error, []⟩
  | incomplete {p : Package} {g : Groups} {error : RenderError} (hreadme : o.readme = true)
      (hpackage : o.package = some p) (hsorted : Groups.ofEntries o.policy 0 es = .ok g)
      (herror : (appendHeader [] p o.badge).error? = some error) :
    Course es o ⟨.error error, opening g o (appendHeader [] p o.badge).log⟩
  | plain {g : Groups} (hreadme : o.readme = false) (hsorted : Groups.ofEntries o.policy 0 es = .ok g) :
    Course es o ⟨.ok (appendSections [] g), opening g o [] ++ groupLog g.published ++ groupLog g.internal⟩
  | framed {p : Package} {g : Groups} (hreadme : o.readme = true) (hpackage : o.package = some p)
      (hsorted : Groups.ofEntries o.policy 0 es = .ok g) (herror : (appendHeader [] p o.badge).error? = none) :
    Course es o
      ⟨.ok (appendFooter (appendSections (appendHeader [] p o.badge).text g) p).text,
        opening g o (appendHeader [] p o.badge).log ++ groupLog g.published ++ groupLog g.internal ++
          (appendFooter (appendSections (appendHeader [] p o.badge).text g) p).log⟩

/-- **Every rendering ends in one of the five ways.** -/
theorem course_render (es : List Entry) (o : Options) : Course es o (render es o) := by
  unfold render readmePackage
  cases hreadme : o.readme with
  | false =>
    cases hsorted : Groups.ofEntries o.policy 0 es with
    | error error => exact .untagged (by simp [hreadme]) hsorted
    | ok g =>
      show Course es o (renderGroups g none o)
      rw [renderGroups_none]
      exact .plain hreadme hsorted
  | true =>
    cases hpackage : o.package with
    | none => exact .packageMissing hreadme hpackage
    | some p =>
      cases hsorted : Groups.ofEntries o.policy 0 es with
      | error error => exact .untagged (by simp [hpackage]) hsorted
      | ok g =>
        show Course es o (renderGroups g (some p) o)
        cases herror : (appendHeader [] p o.badge).error? with
        | some error =>
          rw [renderGroups_incomplete g herror]
          exact .incomplete hreadme hpackage hsorted herror
        | none =>
          rw [renderGroups_complete g herror]
          exact .framed hreadme hpackage hsorted herror

end ApiReference.Document
