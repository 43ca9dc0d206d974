import ApiReference.Proofs.Html.Element
import ApiReference.Proofs.Text.Reading

/-!
# Brackets stay apart

In HTML no `<` stands between a `<` and the next `>` (`TagsApart`). The rules for code keep this, but the rule for links
does not: it takes the value of an attribute out of its tag, and the value may end within another tag. What it leaves of
that tag stands in front of a closing parenthesis. So all the rules for elements keep the weaker `Apart`: a `<` that
some `>` follows has a `>` or a closing parenthesis behind it before the next `<`.

- `Closes` is what must stand behind a `<`, and `Closed` holds of texts in which it stands behind each one;
- what an element has between its tags is closed, if its text is apart (`HasContent.closed`);
- each rule reads from a `<` to a `>` and writes closed text (`IsElement`), so it keeps texts apart
  (`IsElement.apart_rewrite`).
-/

namespace ApiReference.Html

open Text (Rule afterFolded? past? upTo? trimStart isWhiteSpace foldCase)

/-! ## Closed brackets -/

/-- The brackets of tags and the parenthesis that ends a link. -/
def brackets : List Char :=
  ['<', '>', ')']

/-- A `>` or a closing parenthesis stands in the text with no `<` in front of it. -/
inductive Closes : Text → Prop
  | stop {c : Char} {s : Text} (h : c = '>' ∨ c = ')') : Closes (c :: s)
  | cons {c : Char} {s : Text} (hc : c ≠ '<') (h : Closes s) : Closes (c :: s)

namespace Closes

variable {s t : Text}

theorem append (h : Closes s) (t : Text) : Closes (s ++ t) := by
  induction h with
  | stop h => exact .stop h
  | cons hc _ ih => exact .cons hc ih

theorem ne_open {c : Char} (h : c = '>' ∨ c = ')') : c ≠ '<' := by
  rcases h with rfl | rfl <;> decide

theorem not_cons (s : Text) : ¬ Closes ('<' :: s) := by
  intro h
  cases h with
  | stop h => exact ne_open h rfl
  | cons hc _ => exact hc rfl

/-- The first of two texts closes, or it is passed over and the second one does. -/
theorem of_append (h : Closes (s ++ t)) : Closes s ∨ ('<' ∉ s ∧ Closes t) := by
  induction s with
  | nil => exact .inr ⟨List.not_mem_nil, h⟩
  | cons c s ih =>
    cases h with
    | stop h => exact .inl (.stop h)
    | cons hc h =>
      rcases ih h with h | ⟨hs, h⟩
      · exact .inl (.cons hc h)
      · exact .inr ⟨List.not_mem_cons_of_ne_of_not_mem (Ne.symm hc) hs, h⟩

theorem of_mem {c : Char} (hc : c = '>' ∨ c = ')') (h : c ∈ s) (hs : '<' ∉ s) : Closes s := by
  induction s with
  | nil => cases h
  | cons d s ih =>
    rw [List.mem_cons, not_or] at hs
    rcases List.mem_cons.mp h with rfl | h
    · exact .stop hc
    · exact .cons (Ne.symm hs.1) (ih h hs.2)

theorem exists_mem (h : Closes s) : ∃ c ∈ s, c = '>' ∨ c = ')' := by
  induction h with
  | stop h => exact ⟨_, List.mem_cons_self, h⟩
  | cons _ _ ih =>
    obtain ⟨c, hc, h⟩ := ih
    exact ⟨c, List.mem_cons_of_mem _ hc, h⟩

/-- What is in front of the next tag closes, if white space only is between them. -/
theorem of_append_tag {space : Text} (hspace : ∀ c ∈ space, isWhiteSpace c = true)
    (h : Closes (s ++ (space ++ '<' :: t))) : Closes s := by
  rcases h.of_append with h | ⟨-, h⟩
  · exact h
  · rcases h.of_append with h | ⟨-, h⟩
    · obtain ⟨c, hc, rfl | rfl⟩ := h.exists_mem
      · exact absurd (hspace _ hc) (by decide)
      · exact absurd (hspace _ hc) (by decide)
    · exact absurd h (not_cons t)

/-- A rule that applies at a `<` keeps what is in front of it. -/
theorem rewrite {r : Rule} (hr : r.BeginsWith '<') (h : Closes s) : Closes (r.rewrite s) := by
  induction h with
  | stop h =>
    rw [Rule.rewrite_of_none (hr _ _ (ne_open h))]
    exact .stop h
  | cons hc _ ih =>
    rw [Rule.rewrite_of_none (hr _ _ hc)]
    exact .cons hc ih

/-- A tag without a bracket or a parenthesis inside that is at the front of the result is at the front of the text. -/
theorem eq_append_of_rewrite {r : Rule} (hr : r.BeginsWith '<') (h : Closes s) {tag rest : Text}
    (htag : ∀ c ∈ tag, c ∉ brackets) (he : r.rewrite s = tag ++ '>' :: rest) : ∃ rest', s = tag ++ '>' :: rest' := by
  induction h generalizing tag with
  | @stop c s h =>
    rw [Rule.rewrite_of_none (hr _ _ (ne_open h))] at he
    cases tag with
    | nil => exact ⟨s, by rw [(List.cons.inj he).1, List.nil_append]⟩
    | cons d tag =>
      obtain ⟨rfl, -⟩ := List.cons.inj he
      rcases h with rfl | rfl
      · exact absurd (by decide) (htag _ List.mem_cons_self)
      · exact absurd (by decide) (htag _ List.mem_cons_self)
  | @cons c s hc _ ih =>
    rw [Rule.rewrite_of_none (hr _ _ hc)] at he
    cases tag with
    | nil => exact ⟨s, by rw [(List.cons.inj he).1, List.nil_append]⟩
    | cons d tag =>
      obtain ⟨rfl, htail⟩ := List.cons.inj he
      obtain ⟨rest', rfl⟩ := ih (fun c hc => htag c (List.mem_cons_of_mem _ hc)) htail
      exact ⟨rest', rfl⟩

end Closes

/-- Each `<` of the text is closed. -/
def Closed (s : Text) : Prop :=
  ∀ t, '<' :: t <:+ s → Closes t

theorem Closed.of_not_mem {s : Text} (h : '<' ∉ s) : Closed s :=
  fun _ ht => absurd (ht.subset List.mem_cons_self) h

theorem Closed.append {s t : Text} (hs : Closed s) (ht : Closed t) : Closed (s ++ t) := by
  intro u hu
  rcases Text.cons_suffix_append hu with hu | ⟨v, hv, rfl⟩
  · exact ht u hu
  · exact (hs v hv).append t

/-- Each `<` of the text that some `>` follows is closed. -/
def Apart (s : Text) : Prop :=
  ∀ t, '<' :: t <:+ s → '>' ∈ t → Closes t

theorem Apart.of_suffix {s t : Text} (h : Apart s) (ht : t <:+ s) : Apart t :=
  fun u hu => h u (hu.trans ht)

theorem Apart.closed_append {s t : Text} (hs : Closed s) (ht : Apart t) : Apart (s ++ t) := by
  intro u hu hmem
  rcases Text.cons_suffix_append hu with hu | ⟨v, hv, rfl⟩
  · exact ht u hu hmem
  · exact (hs v hv).append t

/-! ## Texts in HTML -/

/-- No `<` stands between a `<` and the next `>`. -/
def TagsApart (s : Text) : Prop :=
  ∀ t, '<' :: t <:+ s → '>' ∈ t → '<' ∉ t.takeWhile (· ≠ '>')

theorem tagsApart_cons_iff (c : Char) (s : Text) :
    TagsApart (c :: s) ↔ (c = '<' → '>' ∈ s → '<' ∉ s.takeWhile (· ≠ '>')) ∧ TagsApart s := by
  constructor
  · intro h
    exact ⟨fun hc => h s (hc ▸ List.suffix_refl _), fun t ht => h t (ht.trans (List.suffix_cons c s))⟩
  · rintro ⟨hfirst, hs⟩ t ht
    rcases List.suffix_cons_iff.mp ht with he | ht
    · obtain ⟨rfl, rfl⟩ := List.cons.inj he
      exact hfirst rfl
    · exact hs t ht

instance decidableTagsApart : (s : Text) → Decidable (TagsApart s)
  | [] => isTrue fun _ ht => absurd (List.suffix_nil.mp ht) (List.cons_ne_nil _ _)
  | c :: s =>
    have := decidableTagsApart s
    decidable_of_iff _ (tagsApart_cons_iff c s).symm

theorem TagsApart.apart {s : Text} (h : TagsApart s) : Apart s := by
  intro t ht hmem
  obtain ⟨tag, rest, rfl, htag⟩ := List.eq_append_cons_of_mem hmem
  have hopen := h _ ht hmem
  rw [Text.takeWhile_ne_append htag] at hopen
  have hclose : Closes (tag ++ ['>']) := .of_mem (.inl rfl) (by simp) (by simp [hopen])
  simpa using hclose.append rest

/-! ## Rules -/

/-- The rule reads from a `<` to a `>`, and what it writes is closed if what it reads is apart. -/
structure IsElement (r : Rule) : Prop where
  beginsWith : r.BeginsWith '<'
  brackets : ∀ {s out rest}, r.atFront? s = some (out, rest) → ∃ read, s = '<' :: (read ++ '>' :: rest)
  closed : ∀ {s out rest}, r.atFront? s = some (out, rest) → Apart s → Closed out
  noAmpersand : ∀ {s out rest}, r.atFront? s = some (out, rest) → '&' ∉ s → '&' ∉ out

namespace IsElement

variable {r : Rule} {s : Text}

theorem suffix (hr : IsElement r) {out rest : Text} (h : r.atFront? s = some (out, rest)) : rest <:+ s := by
  obtain ⟨read, rfl⟩ := hr.brackets h
  exact ⟨'<' :: (read ++ ['>']), by simp⟩

/-- No `&` is written where none is read. -/
theorem not_mem_rewrite (hr : IsElement r) (hs : '&' ∉ s) : '&' ∉ r.rewrite s := by
  have hne : ∀ c ∈ s, c ≠ '&' := fun c hc e => hs (e ▸ hc)
  have hall : ∀ c ∈ r.rewrite s, c ≠ '&' := by
    refine Rule.forall_mem_rewrite (fun s out rest h hs => ?_) hne
    have hout := hr.noAmpersand h fun hm => hs _ hm rfl
    exact ⟨fun c hc e => hout (e ▸ hc), fun c hc => hs c ((hr.suffix h).subset hc)⟩
  exact fun hm => hall _ hm rfl

/-- A `>` in the result comes from one in the text. -/
theorem mem_of_mem_rewrite (hr : IsElement r) (h : '>' ∈ r.rewrite s) : '>' ∈ s := by
  induction s using r.rewrite_induction with
  | nil => rwa [Rule.rewrite_nil] at h
  | apply s out rest hread ih =>
    obtain ⟨read, rfl⟩ := hr.brackets hread
    simp
  | keep c s hnone ih =>
    rw [Rule.rewrite_of_none hnone] at h
    rcases List.mem_cons.mp h with rfl | h
    · exact List.mem_cons_self
    · exact List.mem_cons_of_mem _ (ih h)

/-- **The rules for elements keep brackets apart.** -/
theorem apart_rewrite (hr : IsElement r) (hs : Apart s) : Apart (r.rewrite s) := by
  induction s using r.rewrite_induction with
  | nil => rwa [Rule.rewrite_nil]
  | apply s out rest hread ih =>
    rw [Rule.rewrite_of_some hread]
    exact .closed_append (hr.closed hread hs) (ih (hs.of_suffix (hr.suffix hread)))
  | keep c s hnone ih =>
    rw [Rule.rewrite_of_none hnone]
    intro t ht hmem
    rcases List.suffix_cons_iff.mp ht with he | ht
    · -- what closes a `<` that is kept is kept, since no rule applies in front of it
      obtain ⟨rfl, rfl⟩ := List.cons.inj he
      exact (hs s (List.suffix_refl _) (hr.mem_of_mem_rewrite hmem)).rewrite hr.beginsWith
    · exact ih (hs.of_suffix (List.suffix_cons c s)) t ht hmem

end IsElement

/-! ## Content between tags -/

/-- The text begins with a tag, has `content` behind some tag, and then, behind white space, a tag up to `rest`. -/
def HasContent (s content rest : Text) : Prop :=
  ∃ opening space closing, s = '<' :: (opening ++ content ++ (space ++ '<' :: (closing ++ '>' :: rest))) ∧
    ∀ c ∈ space, isWhiteSpace c = true

namespace HasContent

variable {s content rest : Text}

theorem brackets (h : HasContent s content rest) : ∃ read, s = '<' :: (read ++ '>' :: rest) := by
  obtain ⟨opening, space, closing, rfl, -⟩ := h
  exact ⟨opening ++ content ++ (space ++ '<' :: closing), by simp⟩

theorem subset (h : HasContent s content rest) : content ⊆ s := by
  obtain ⟨opening, space, closing, rfl, -⟩ := h
  intro c hc
  simp [hc]

/-- The content of an element is closed: the next tag closes nothing. -/
theorem closed (h : HasContent s content rest) (hs : Apart s) : Closed content := by
  obtain ⟨opening, space, closing, rfl, hspace⟩ := h
  intro t ht
  obtain ⟨front, rfl⟩ := ht
  refine Closes.of_append_tag (t := closing ++ '>' :: rest) hspace (hs _ ⟨'<' :: (opening ++ front), ?_⟩ ?_)
  · simp
  · simp

end HasContent

/-- A rule that writes the content of an element between two marks. -/
theorem IsElement.of_content {r : Rule} (hr : r.BeginsWith '<') (before behind : Text)
    (hbefore : '<' ∉ before ∧ '&' ∉ before) (hbehind : '<' ∉ behind ∧ '&' ∉ behind)
    (h : ∀ {s out rest}, r.atFront? s = some (out, rest) →
      ∃ content, out = before ++ content ++ behind ∧ HasContent s content rest) : IsElement r where
  beginsWith := hr
  brackets hread := by
    obtain ⟨content, -, hcontent⟩ := h hread
    exact hcontent.brackets
  closed hread hs := by
    obtain ⟨content, rfl, hcontent⟩ := h hread
    exact ((Closed.of_not_mem hbefore.1).append (hcontent.closed hs)).append (.of_not_mem hbehind.1)
  noAmpersand hread hs := by
    obtain ⟨content, rfl, hcontent⟩ := h hread
    have hamp : '&' ∉ content := fun hm => hs (hcontent.subset hm)
    simp [hbefore.2, hbehind.2, hamp]

/-! ## Code -/

theorem exists_of_codeBlockEnd {s rest : Text} (h : codeBlockEnd? s = some rest) :
    ∃ space closing, s = space ++ '<' :: (closing ++ '>' :: rest) ∧ ∀ c ∈ space, isWhiteSpace c = true := by
  obtain ⟨s₁, h₁, h₂⟩ := Option.bind_eq_some_iff.mp h
  obtain ⟨space, hs, hspace⟩ := Text.exists_eq_append_trimStart s
  obtain ⟨space₁, hs₁, -⟩ := Text.exists_eq_append_trimStart s₁
  obtain ⟨code, hcode, -⟩ := Text.exists_of_afterFolded_tag "/code".toList h₁
  obtain ⟨pre, hpre, -⟩ := Text.exists_of_afterFolded_tag "/pre".toList h₂
  refine ⟨space, code ++ '>' :: (space₁ ++ '<' :: pre), ?_, hspace⟩
  rw [hs, hcode, hs₁, hpre]
  simp

theorem hasContent_of_codeBlock {s code rest : Text} (h : codeBlock? s = some (code, rest)) :
    HasContent s code rest := by
  simp only [codeBlock?, Option.bind_eq_bind, Option.bind_eq_some_iff] at h
  obtain ⟨s₁, h₁, s₂, h₂, s₃, h₃, h₄⟩ := h
  obtain ⟨pre, rfl, -⟩ := Text.exists_of_afterFolded_tag "pre".toList h₁
  obtain ⟨space, hs₁, -⟩ := Text.exists_eq_append_trimStart s₁
  obtain ⟨name, hname, -⟩ := Text.exists_of_afterFolded h₂
  obtain ⟨attributes, rfl, -⟩ := Text.exists_of_past h₃
  obtain ⟨t, rfl, hclose⟩ := Text.exists_of_upTo h₄
  obtain ⟨space', closing, rfl, hspace'⟩ := exists_of_codeBlockEnd hclose
  refine ⟨pre ++ '>' :: (space ++ name ++ attributes ++ ['>']), space', closing, ?_, hspace'⟩
  rw [hs₁, hname]
  simp

theorem isElement_codeBlock : IsElement codeBlock := by
  refine .of_content (beginsWith_codeRules codeBlock (by simp [codeRules])) "\n\n```\n".toList "\n```\n\n".toList
    (by decide) (by decide) fun {s out rest} h => ?_
  obtain ⟨⟨code, rest⟩, hcode, he⟩ := Option.map_eq_some_iff.mp h
  obtain ⟨rfl, rfl⟩ := Prod.mk.inj he
  exact ⟨code, rfl, hasContent_of_codeBlock hcode⟩

theorem hasContent_of_codeSpan {s code rest : Text} (h : codeSpan? s = some (code, rest)) :
    HasContent s code rest := by
  simp only [codeSpan?, Option.bind_eq_bind, Option.bind_eq_some_iff] at h
  obtain ⟨s₁, h₁, s₂, h₂, h₃⟩ := h
  obtain ⟨name, rfl, -⟩ := Text.exists_of_afterFolded_cons "code".toList h₁
  obtain ⟨attributes, rfl, -⟩ := Text.exists_of_past h₂
  obtain ⟨t, rfl, hclose⟩ := Text.exists_of_upTo h₃
  obtain ⟨closing, rfl, -⟩ := Text.exists_of_afterFolded_tag "/code".toList hclose
  exact ⟨name ++ attributes ++ ['>'], [], closing, by simp, List.forall_mem_nil _⟩

theorem isElement_codeSpan : IsElement codeSpan := by
  refine .of_content (beginsWith_codeRules codeSpan (by simp [codeRules])) ['`'] ['`'] (by decide) (by decide)
    fun {s out rest} h => ?_
  obtain ⟨⟨code, rest⟩, hcode, he⟩ := Option.map_eq_some_iff.mp h
  obtain ⟨rfl, rfl⟩ := Prod.mk.inj he
  exact ⟨code, rfl, hasContent_of_codeSpan hcode⟩

/-! ## Links -/

/-- The value of an attribute, the rest of the opening tag, the content and the closing tag. -/
theorem exists_of_anchorAtHref {s : Text} {a : Anchor} (h : anchorAtHref? s = some a) :
    ∃ opening middle closing, s = opening ++ (a.target ++ '"' :: (middle ++ '>' ::
      (a.label ++ '<' :: (closing ++ '>' :: a.rest)))) := by
  simp only [anchorAtHref?, Option.bind_eq_bind, Option.bind_eq_some_iff, Option.some.injEq] at h
  obtain ⟨s₁, h₁, s₂, h₂, s₃, h₃, s₄, h₄, s₅, h₅, ⟨label, rest⟩, h₆, rfl⟩ := h
  obtain ⟨name, rfl, -⟩ := Text.exists_of_afterFolded h₁
  obtain ⟨space₁, hs₁, -⟩ := Text.exists_eq_append_trimStart s₁
  obtain ⟨space₂, hs₂, -⟩ := Text.exists_eq_append_trimStart s₂
  obtain ⟨target, rfl, htarget⟩ := Text.exists_of_past h₄
  obtain ⟨middle, rfl, -⟩ := Text.exists_of_past h₅
  obtain ⟨t, rfl, hclose⟩ := Text.exists_of_upTo h₆
  obtain ⟨closing, rfl, -⟩ := Text.exists_of_afterFolded_tag "/a".toList hclose
  refine ⟨name ++ space₁ ++ ['='] ++ space₂ ++ ['"'], middle, closing, ?_⟩
  rw [hs₁, Text.eq_append_of_after h₂, hs₂, Text.eq_append_of_after h₃, Text.takeWhile_ne_append htarget]
  simp

theorem exists_of_anchorInTag {s : Text} {a : Anchor} (h : anchorInTag? s = some a) :
    ∃ front t, s = front ++ t ∧ anchorAtHref? t = some a := by
  induction s with
  | nil => cases h
  | cons c s ih =>
    rw [anchorInTag?] at h
    cases hhref : anchorAtHref? (c :: s) with
    | some b =>
      rw [hhref] at h
      exact ⟨[], c :: s, rfl, hhref.trans h⟩
    | none =>
      rw [hhref] at h
      by_cases hc : c = '>'
      · simp [hc] at h
      · obtain ⟨front, t, rfl, ht⟩ := ih (by simpa [hc] using h)
        exact ⟨c :: front, t, rfl, ht⟩

theorem exists_of_anchor {s : Text} {a : Anchor} (h : anchor? s = some a) :
    ∃ opening middle closing, s = '<' :: (opening ++ (a.target ++ '"' :: (middle ++ '>' ::
      (a.label ++ '<' :: (closing ++ '>' :: a.rest))))) := by
  obtain ⟨s₁, h₁, h₂⟩ := Option.bind_eq_some_iff.mp h
  obtain ⟨name, rfl, -⟩ := Text.exists_of_afterFolded_cons "a".toList h₁
  cases s₁ with
  | nil => cases h₂
  | cons c s₁ =>
    by_cases hc : isWhiteSpace c = true
    · obtain ⟨front, t, rfl, ht⟩ := exists_of_anchorInTag (by simpa [hc] using h₂)
      obtain ⟨opening, middle, closing, rfl⟩ := exists_of_anchorAtHref ht
      exact ⟨name ++ c :: front ++ opening, middle, closing, by simp⟩
    · simp [hc] at h₂

theorem hasContent_of_anchor {s : Text} {a : Anchor} (h : anchor? s = some a) : HasContent s a.label a.rest := by
  obtain ⟨opening, middle, closing, rfl⟩ := exists_of_anchor h
  exact ⟨opening ++ a.target ++ '"' :: middle ++ ['>'], [], closing, by simp, List.forall_mem_nil _⟩

/-- The value of an attribute may end within a tag: the parenthesis behind it closes what is left of the tag. -/
theorem closed_target {s : Text} {a : Anchor} (h : anchor? s = some a) (hs : Apart s) : Closed (a.target ++ [')']) := by
  obtain ⟨opening, middle, closing, he⟩ := exists_of_anchor h
  intro t ht
  rcases Text.cons_suffix_append ht with ht | ⟨v, ⟨front, hfront⟩, rfl⟩
  · exact absurd (ht.subset List.mem_cons_self) (by decide)
  · have hcloses : Closes (v ++ '"' :: (middle ++ '>' :: (a.label ++ '<' :: (closing ++ '>' :: a.rest)))) := by
      refine hs _ ⟨'<' :: (opening ++ front), ?_⟩ (by simp)
      rw [he, ← hfront]
      simp
    rcases hcloses.of_append with hv | ⟨hv, -⟩
    · exact hv.append _
    · exact .of_mem (.inr rfl) (by simp) (by simp [hv])

theorem isElement_link : IsElement link where
  beginsWith := beginsWith_link
  brackets h := by
    obtain ⟨a, ha, he⟩ := Option.map_eq_some_iff.mp h
    obtain ⟨-, rfl⟩ := Prod.mk.inj he
    exact (hasContent_of_anchor ha).brackets
  closed h hs := by
    obtain ⟨a, ha, he⟩ := Option.map_eq_some_iff.mp h
    obtain ⟨rfl, -⟩ := Prod.mk.inj he
    have hopen : Closed ['['] := .of_not_mem (by decide)
    have hmiddle : Closed "](".toList := .of_not_mem (by decide)
    have hclosed := ((hopen.append ((hasContent_of_anchor ha).closed hs)).append hmiddle).append (closed_target ha hs)
    simpa using hclosed
  noAmpersand h hs := by
    obtain ⟨a, ha, he⟩ := Option.map_eq_some_iff.mp h
    obtain ⟨rfl, -⟩ := Prod.mk.inj he
    obtain ⟨opening, middle, closing, rfl⟩ := exists_of_anchor ha
    simp only [List.mem_cons, List.mem_append, not_or] at hs
    simp [hs]

end ApiReference.Html
