import ApiReference.Package.Slug
import ApiReference.Proofs.Text.Passing
import Mathlib.Data.List.DropRight
import Mathlib.Data.List.TakeWhile

/-!
# Where a slug stands

A slug stands at the end of an address: the owner, a slash, the name and `.git`, behind a separator or at the front of
the address (`StandsIn`).

- An address has at most one slug: the name is the longest run without separators in front of `.git`, and the owner the
  longest one in front of the slash (`StandsIn.unique`);
- `ofUrl?` looks at one place after another, and so it finds the slug (`ofUrl_eq_some_iff`). At an earlier place it
  cannot find another one.
-/

namespace ApiReference.Slug

/-! ## Segments -/

/-- A text that is not empty and has no separators. -/
structure IsSegment (s : Text) : Prop where
  ne_nil : s ≠ []
  plain : ∀ c ∈ s, isSeparator c = false

/-- The text is empty or ends with a separator. -/
def EndsApart (s : Text) : Prop :=
  ∀ c, s.getLast? = some c → isSeparator c = true

/-- A segment that is read is a front of the text. -/
theorem segment_eq {s segment rest : Text} (h : segment? s = some (segment, rest)) :
    s = segment ++ rest ∧ IsSegment segment := by
  unfold segment? at h
  by_cases hempty : (s.takeWhile (!isSeparator ·)).isEmpty = true
  · simp [hempty] at h
  · simp only [hempty, Bool.false_eq_true, if_false, Option.some.injEq, Prod.mk.injEq] at h
    obtain ⟨rfl, rfl⟩ := h
    refine ⟨List.takeWhile_append_dropWhile.symm, fun he => hempty (by rw [he]; rfl), fun c hc => ?_⟩
    simpa using List.mem_takeWhile_imp hc

/-- A segment is read up to a separator. -/
theorem segment_append {segment : Text} (h : IsSegment segment) {c : Char} (hc : isSeparator c = true) (rest : Text) :
    segment? (segment ++ c :: rest) = some (segment, c :: rest) := by
  have hplain : ∀ d ∈ segment, (!isSeparator d) = true := fun d hd => by rw [h.plain d hd]; rfl
  have hne : ¬ segment.isEmpty = true := fun he => h.ne_nil (List.isEmpty_iff.mp he)
  rw [segment?, List.takeWhile_append_of_pos hplain, List.dropWhile_append_of_pos hplain,
    List.takeWhile_cons_of_neg (by simp [hc]), List.dropWhile_cons_of_neg (by simp [hc]), List.append_nil]
  exact if_neg hne

/-- What stands in front of the longest run without separators at the end of a text. -/
theorem rdropWhile_append {front segment : Text} (hfront : EndsApart front)
    (h : ∀ c ∈ segment, isSeparator c = false) : (front ++ segment).rdropWhile (!isSeparator ·) = front := by
  have hplain : ∀ c ∈ segment.reverse, (!isSeparator c) = true :=
    fun c hc => by rw [h c (List.mem_reverse.mp hc)]; rfl
  have hself : front.rdropWhile (!isSeparator ·) = front := by
    rw [List.rdropWhile_eq_self_iff]
    intro hne
    simp [hfront _ (List.getLast?_eq_some_getLast hne)]
  rw [List.rdropWhile, List.reverse_append, List.dropWhile_append_of_pos hplain]
  exact hself

/-- A text has one longest run without separators at its end. -/
theorem append_segment_inj {front front' segment segment' : Text} (hfront : EndsApart front)
    (hfront' : EndsApart front') (h : ∀ c ∈ segment, isSeparator c = false)
    (h' : ∀ c ∈ segment', isSeparator c = false) (heq : front ++ segment = front' ++ segment') :
    front = front' ∧ segment = segment' := by
  have hsame : front = front' := by
    rw [← rdropWhile_append hfront h, heq, rdropWhile_append hfront' h']
  subst hsame
  exact ⟨rfl, List.append_cancel_left heq⟩

/-! ## The place of a slug -/

/-- The slug stands at the end of the address `url`, and `front` in front of it. -/
structure StandsIn (slug : Slug) (front url : Text) : Prop where
  url_eq : url = front ++ (slug.owner ++ '/' :: (slug.name ++ ".git".toList))
  owner : IsSegment slug.owner
  name : IsSegment slug.name
  front : EndsApart front

/-- An address has at most one slug, at one place. -/
theorem StandsIn.unique {slug slug' : Slug} {front front' url : Text} (h : slug.StandsIn front url)
    (h' : slug'.StandsIn front' url) : slug = slug' ∧ front = front' := by
  obtain ⟨owner, name⟩ := slug
  obtain ⟨owner', name'⟩ := slug'
  have hurl : front ++ owner ++ ['/'] ++ name ++ ".git".toList =
      front' ++ owner' ++ ['/'] ++ name' ++ ".git".toList := by
    simpa using h.url_eq.symm.trans h'.url_eq
  have hslash (s : Text) : EndsApart (s ++ ['/']) := by
    intro c hc
    rw [List.getLast?_concat] at hc
    obtain rfl := Option.some.inj hc
    rfl
  obtain ⟨howner, rfl⟩ := append_segment_inj (hslash _) (hslash _) h.name.plain h'.name.plain
    (List.append_cancel_right hurl)
  obtain ⟨rfl, rfl⟩ := append_segment_inj h.front h'.front h.owner.plain h'.owner.plain
    (List.append_cancel_right howner)
  exact ⟨rfl, rfl⟩

/-- A slug stands in a longer address as well, if the character in front of its owner is a separator. -/
theorem StandsIn.cons {slug : Slug} {front url : Text} (h : slug.StandsIn front url) {c : Char}
    (hc : front = [] → isSeparator c = true) : slug.StandsIn (c :: front) (c :: url) where
  url_eq := by rw [h.url_eq]; rfl
  owner := h.owner
  name := h.name
  front := by
    intro d hd
    cases front with
    | nil => exact Option.some.inj hd ▸ hc rfl
    | cons e front => exact h.front d (by rwa [List.getLast?_cons_cons] at hd)

/-- If that character is none, the owner is longer. -/
theorem StandsIn.extend {slug : Slug} {url : Text} (h : slug.StandsIn [] url) {c : Char} (hc : isSeparator c = false) :
    StandsIn ⟨c :: slug.owner, slug.name⟩ [] (c :: url) where
  url_eq := by rw [h.url_eq]; rfl
  owner := ⟨List.cons_ne_nil _ _, List.forall_mem_cons.mpr ⟨hc, h.owner.plain⟩⟩
  name := h.name
  front := h.front

theorem StandsIn.tail {slug : Slug} {c d : Char} {front url : Text} (h : slug.StandsIn (c :: front) (d :: url)) :
    slug.StandsIn front url where
  url_eq := (List.cons.inj h.url_eq).2
  owner := h.owner
  name := h.name
  front := by
    intro e he
    cases front with
    | nil => exact absurd he nofun
    | cons _ front => exact h.front e (by rwa [List.getLast?_cons_cons])

/-! ## Finding a slug -/

/-- A text is read as a slug if it consists of one. -/
theorem ofSuffix_eq_some_iff {s : Text} {slug : Slug} : ofSuffix? s = some slug ↔ slug.StandsIn [] s := by
  constructor
  · intro h
    unfold ofSuffix? at h
    obtain ⟨⟨owner, s₁⟩, howner, h⟩ := Option.bind_eq_some_iff.mp h
    obtain ⟨s₂, hslash, h⟩ := Option.bind_eq_some_iff.mp h
    obtain ⟨⟨name, s₃⟩, hname, h⟩ := Option.bind_eq_some_iff.mp h
    obtain ⟨hgit, h⟩ := Option.ite_none_right_eq_some.mp h
    obtain rfl := Option.some.inj h
    obtain ⟨hs, howner⟩ := segment_eq howner
    obtain ⟨hs₂, hname⟩ := segment_eq hname
    refine ⟨?_, howner, hname, fun c hc => absurd hc nofun⟩
    calc s = owner ++ s₁ := hs
      _ = owner ++ '/' :: s₂ := congrArg (owner ++ ·) (Text.eq_append_of_after hslash)
      _ = owner ++ '/' :: (name ++ ".git".toList) := by rw [hs₂, hgit]
  · rintro ⟨rfl, howner, hname, -⟩
    obtain ⟨owner, name⟩ := slug
    have hread : segment? (owner ++ '/' :: (name ++ ".git".toList)) = some (owner, '/' :: (name ++ ".git".toList)) :=
      segment_append howner rfl _
    have hread' : segment? (name ++ ".git".toList) = some (name, ".git".toList) := segment_append hname rfl _
    show (segment? (owner ++ '/' :: (name ++ ".git".toList))).bind _ = _
    rw [hread]
    show (segment? (name ++ ".git".toList)).bind _ = _
    rw [hread']
    rfl

/-- The slug that is found in an address is the one that stands there. -/
theorem ofUrl_eq_some_iff {url : Text} {slug : Slug} : ofUrl? url = some slug ↔ ∃ front, slug.StandsIn front url := by
  induction url with
  | nil =>
    refine ⟨fun h => absurd h nofun, ?_⟩
    rintro ⟨front, h⟩
    exact absurd h.url_eq.symm (List.append_ne_nil_of_right_ne_nil _ (List.append_ne_nil_of_right_ne_nil _
      (List.cons_ne_nil _ _)))
  | cons c url ih =>
    rw [ofUrl_cons]
    cases hs : ofSuffix? (c :: url) with
    | some slug' =>
      have hstands := ofSuffix_eq_some_iff.mp hs
      rw [Option.some_or]
      constructor
      · intro h
        obtain rfl := Option.some.inj h
        exact ⟨[], hstands⟩
      · rintro ⟨front, h⟩
        rw [(hstands.unique h).1]
    | none =>
      rw [Option.none_or, ih]
      constructor
      · rintro ⟨front, h⟩
        refine ⟨c :: front, h.cons ?_⟩
        rintro rfl
        -- the owner would be longer otherwise, and found at this place
        by_contra hc
        rw [Bool.not_eq_true] at hc
        rw [ofSuffix_eq_some_iff.mpr (h.extend hc)] at hs
        cases hs
      · rintro ⟨front, h⟩
        cases front with
        | nil =>
          rw [ofSuffix_eq_some_iff.mpr h] at hs
          cases hs
        | cons d front => exact ⟨front, h.tail⟩

end ApiReference.Slug
