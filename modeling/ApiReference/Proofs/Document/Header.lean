import ApiReference.Document.Readme
import ApiReference.Proofs.Package.Slug

/-!
# The header of a README

The header of a README is complete or ends behind its title. It is complete if no badge is asked for, or if the
repository has an address in which a slug stands (`appendHeader_complete_iff`). What is appended in each case is said
by one equation each: `appendHeader_plain`, `appendHeader_badge`, `appendHeader_urlMissing` and
`appendHeader_urlUnrecognized`.
-/

namespace ApiReference

/-! ## The badge -/

/-- The path of a repository: its owner and its name. -/
def Slug.path (slug : Slug) : Text :=
  slug.owner ++ ['/'] ++ slug.name

namespace Document

/-- The image of a badge. -/
def badgeImage (slug : Slug) : Text :=
  "https://secure.travis-ci.org/".toList ++ slug.path ++ ".png".toList

/-- The page that a badge links to. -/
def badgeLink (slug : Slug) : Text :=
  "http://travis-ci.org/".toList ++ slug.path

/-- A badge is a link around an image. -/
theorem badge_eq (slug : Slug) :
    badge slug = "[![build status](".toList ++ badgeImage slug ++ ")](".toList ++ badgeLink slug ++ [')'] := by
  have hopening : "[![build status](https://secure.travis-ci.org/".toList =
      "[![build status](".toList ++ "https://secure.travis-ci.org/".toList := by decide +kernel
  have hmiddle : ".png)](http://travis-ci.org/".toList =
      ".png".toList ++ ")](".toList ++ "http://travis-ci.org/".toList := by decide +kernel
  have hregroup (a b c d e path last : Text) : a ++ b ++ path ++ (c ++ d ++ e) ++ path ++ last =
      a ++ (b ++ path ++ c) ++ d ++ (e ++ path) ++ last := by
    simp only [List.append_assoc]
  calc badge slug = _ := congrArg₂ (fun opening middle => opening ++ slug.path ++ middle ++ slug.path ++ [')'])
        hopening hmiddle
    _ = _ := hregroup _ _ _ _ _ _ _

/-! ## What is appended -/

/-- The title of a README. -/
def titleText (p : Package) : Text :=
  "# ".toList ++ p.name ++ "\n\n".toList

/-- The description of a package in a README. -/
def descriptionText (p : Package) : Text :=
  p.description ++ "\n\n".toList

theorem appendTitle_eq (document : Text) (p : Package) : appendTitle document p = document ++ titleText p := by
  simp [appendTitle, titleText]

theorem appendHeader_plain (document : Text) (p : Package) :
    appendHeader document p false = ⟨document ++ titleText p ++ descriptionText p, [], none⟩ := by
  rw [← appendTitle_eq, descriptionText, ← List.append_assoc]
  rfl

theorem appendHeader_badge (document : Text) {p : Package} {url : Text} {slug : Slug}
    (hurl : p.repositoryUrl? = some url) (hslug : Slug.ofUrl? url = some slug) :
    appendHeader document p true =
      ⟨document ++ titleText p ++ (badge slug ++ "\n\n".toList) ++ descriptionText p, [.badge url], none⟩ := by
  rw [← appendTitle_eq, descriptionText, ← List.append_assoc, ← List.append_assoc]
  simp [appendHeader, appendBadge, hurl, hslug]

theorem appendHeader_urlMissing (document : Text) {p : Package} (hurl : p.repositoryUrl? = none) :
    appendHeader document p true = ⟨document ++ titleText p, [], some .urlMissing⟩ := by
  rw [← appendTitle_eq]
  simp [appendHeader, appendBadge, hurl]

theorem appendHeader_urlUnrecognized (document : Text) {p : Package} {url : Text}
    (hurl : p.repositoryUrl? = some url) (hslug : Slug.ofUrl? url = none) :
    appendHeader document p true = ⟨document ++ titleText p, [.badge url], some (.urlUnrecognized url)⟩ := by
  rw [← appendTitle_eq]
  simp [appendHeader, appendBadge, hurl, hslug]

/-! ## Complete headers -/

/-- The repository of a package has an address in which a slug stands. -/
def HasSlug (p : Package) : Prop :=
  ∃ url front, ∃ slug : Slug, p.repositoryUrl? = some url ∧ slug.StandsIn front url

theorem appendHeader_complete_iff (document : Text) (p : Package) (withBadge : Bool) :
    (appendHeader document p withBadge).error? = none ↔ withBadge = false ∨ HasSlug p := by
  cases withBadge with
  | false => simp [appendHeader_plain]
  | true =>
    cases hurl : p.repositoryUrl? with
    | none => simp [appendHeader_urlMissing document hurl, HasSlug, hurl]
    | some url =>
      cases hslug : Slug.ofUrl? url with
      | none =>
        have hnone : ¬ HasSlug p := by
          rintro ⟨url', front, slug, hurl', hstands⟩
          obtain rfl := Option.some.inj (hurl.symm.trans hurl')
          rw [Slug.ofUrl_eq_some_iff.mpr ⟨front, hstands⟩] at hslug
          cases hslug
        simp [appendHeader_urlUnrecognized document hurl hslug, hnone]
      | some slug =>
        obtain ⟨front, hstands⟩ := Slug.ofUrl_eq_some_iff.mp hslug
        have hsome : HasSlug p := ⟨url, front, slug, hurl, hstands⟩
        simp [appendHeader_badge document hurl hslug, hsome]

/-- Nothing but the title is appended of a header that is incomplete. -/
theorem text_of_incomplete {document : Text} {p : Package} {withBadge : Bool}
    (h : (appendHeader document p withBadge).error? ≠ none) :
    (appendHeader document p withBadge).text = document ++ titleText p := by
  cases withBadge with
  | false => exact absurd (by rw [appendHeader_plain]) h
  | true =>
    cases hurl : p.repositoryUrl? with
    | none => rw [appendHeader_urlMissing document hurl]
    | some url =>
      cases hslug : Slug.ofUrl? url with
      | none => rw [appendHeader_urlUnrecognized document hurl hslug]
      | some slug => exact absurd (by rw [appendHeader_badge document hurl hslug]) h

/-- **The slug of a repository is found where it stands**, at the end of its address, and there is one at most. So the
header of a README is complete exactly if no badge is asked for or there is a slug: the title, the badge, whose image
and link both name the slug, and the description are appended then, and else the title only. -/
theorem appendHeader_slug :
    (∀ url slug, Slug.ofUrl? url = some slug ↔ ∃ front, slug.StandsIn front url) ∧
      (∀ (url front front' : Text) (slug slug' : Slug), slug.StandsIn front url → slug'.StandsIn front' url →
        slug = slug' ∧ front = front') ∧
      ∀ (document : Text) (p : Package) (withBadge : Bool),
        ((appendHeader document p withBadge).error? = none ↔ withBadge = false ∨
          ∃ url front, ∃ slug : Slug, p.repositoryUrl? = some url ∧ slug.StandsIn front url) ∧
        (withBadge = false → (appendHeader document p withBadge).text =
          document ++ ("# ".toList ++ p.name ++ "\n\n".toList) ++ (p.description ++ "\n\n".toList)) ∧
        (withBadge = true → ∀ (url front : Text) (slug : Slug), p.repositoryUrl? = some url → slug.StandsIn front url →
          (appendHeader document p withBadge).text =
            document ++ ("# ".toList ++ p.name ++ "\n\n".toList) ++
              ("[![build status](".toList ++ badgeImage slug ++ ")](".toList ++ badgeLink slug ++ [')'] ++
                "\n\n".toList) ++ (p.description ++ "\n\n".toList)) ∧
        ((appendHeader document p withBadge).error? ≠ none → (appendHeader document p withBadge).text =
          document ++ ("# ".toList ++ p.name ++ "\n\n".toList)) := by
  refine ⟨fun url slug => Slug.ofUrl_eq_some_iff, fun _ _ _ _ _ h h' => h.unique h', fun document p withBadge =>
    ⟨appendHeader_complete_iff document p withBadge, ?_, ?_, text_of_incomplete⟩⟩
  · rintro rfl
    rw [appendHeader_plain]
    rfl
  · rintro rfl url front slug hurl hstands
    rw [appendHeader_badge document hurl (Slug.ofUrl_eq_some_iff.mpr ⟨front, hstands⟩), badge_eq]
    rfl

/-- A slug behind a colon in an address with points and slashes in front, and an address that has none. -/
theorem appendHeader_slug_behind_colon :
    let url := "git@a.b/c:d/e.git".toList
    let p : Package := ⟨"p".toList, "q".toList, some (.shorthand url), none⟩
    let p' : Package := ⟨"p".toList, "q".toList, some (.detailed (some "a/b.c.git".toList)), none⟩
    let slug : Slug := ⟨"d".toList, "e".toList⟩
    slug.StandsIn "git@a.b/c:".toList url ∧ Slug.ofUrl? url = some slug ∧
      (appendHeader ['x'] p true).text = "x# p\n\n".toList ++
        ("[![build status](".toList ++ badgeImage slug ++ ")](".toList ++ badgeLink slug ++ ")\n\n".toList) ++
        "q\n\n".toList ∧
      (appendHeader ['x'] p false).text = "x# p\n\nq\n\n".toList ∧
      (appendHeader ['x'] p' true).error? ≠ none ∧ (appendHeader ['x'] p' true).text = "x# p\n\n".toList := by
  intro url p p' slug
  have hstands : slug.StandsIn "git@a.b/c:".toList url :=
    ⟨rfl, ⟨by decide, List.forall_mem_singleton.mpr rfl⟩, ⟨by decide, List.forall_mem_singleton.mpr rfl⟩,
      fun c hc => Option.some.inj hc ▸ rfl⟩
  have hfails : (appendHeader ['x'] p' true).error? ≠ none := by decide
  obtain ⟨hfound, -, hheader⟩ := appendHeader_slug
  refine ⟨hstands, (hfound url slug).mpr ⟨_, hstands⟩, ?_, ?_, hfails, ?_⟩
  · rw [(hheader ['x'] p true).2.2.1 rfl url _ slug rfl hstands]
    rfl
  · rw [(hheader ['x'] p false).2.1 rfl]
    rfl
  · rw [(hheader ['x'] p' true).2.2.2 hfails]
    rfl

end Document

end ApiReference
