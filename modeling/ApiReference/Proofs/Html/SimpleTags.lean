import ApiReference.Proofs.Html.Brackets
import ApiReference.Proofs.Html.Layout

/-!
# No simple tag is left

The rules for single tags leave none of theirs, and no tag comes about later. A tag in the result has its brackets from
the text. If it did not stand there, something between its brackets was replaced, from another `<` on; but behind the
first `<` a `>` or a closing parenthesis comes before the next one (`Apart`), and the tag holds neither.

- `IsTag` says what the rules for single tags read, `Absent` that a rule applies nowhere in a text;
- a rule leaves no place where it applies and makes none for another (`IsTag.absent_rewrite`), so after all of them none
  applies (`absent_rewriteElements`);
- collapsing blank lines and trimming make no tag either (`absent_collapse`, `Absent.of_isInfix`).
-/

namespace ApiReference.Html

open Text (Rule afterFolded? trimStart isWhiteSpace foldCase)
open Markdown (collapse)

/-! ## Rules for single tags -/

/-- The rule reads one tag without a bracket or a parenthesis inside, whatever is behind it, and writes no `<` and no
`&`. -/
structure IsTag (r : Rule) : Prop where
  beginsWith : r.BeginsWith '<'
  reads : ∀ {s out rest}, r.atFront? s = some (out, rest) → ∃ tag, s = '<' :: (tag ++ '>' :: rest) ∧
    (∀ c ∈ tag, c ∉ brackets) ∧ ∀ rest', r.atFront? ('<' :: (tag ++ '>' :: rest')) ≠ none
  writes : ∀ {s out rest}, r.atFront? s = some (out, rest) → '<' ∉ out ∧ '&' ∉ out

/-- The rule applies nowhere in the text. -/
def Absent (r : Rule) (s : Text) : Prop :=
  ∀ t, t <:+ s → r.atFront? t = none

namespace IsTag

variable {r q : Rule} {s : Text}

theorem isElement (hr : IsTag r) : IsElement r where
  beginsWith := hr.beginsWith
  brackets h := by
    obtain ⟨tag, hs, -⟩ := hr.reads h
    exact ⟨tag, hs⟩
  closed h _ := .of_not_mem (hr.writes h).1
  noAmpersand h _ := (hr.writes h).2

/-- What one of these rules would read in the result stands in the text, and the other one did not read it there. -/
theorem exists_of_suffix_rewrite (hr : IsTag r) (hq : IsTag q) (hs : Apart s) {t : Text} (ht : t <:+ r.rewrite s)
    (h : q.atFront? t ≠ none) : ∃ u, u <:+ s ∧ q.atFront? u ≠ none ∧ r.atFront? u = none := by
  obtain ⟨t, rfl⟩ := hq.beginsWith.eq_cons h
  obtain ⟨u, hu, rfl, hkept⟩ := Rule.exists_of_cons_suffix_rewrite
    (fun s out rest hread => ⟨(hr.writes hread).1, hr.isElement.suffix hread⟩) ht
  obtain ⟨⟨out, rest⟩, hread⟩ := Option.ne_none_iff_exists'.mp h
  obtain ⟨tag, he, htag, hany⟩ := hq.reads hread
  have hrewrite : r.rewrite u = tag ++ '>' :: rest := (List.cons.inj he).2
  have hcloses : Closes u := hs u hu (hr.isElement.mem_of_mem_rewrite (by simp [hrewrite]))
  obtain ⟨rest', rfl⟩ := hcloses.eq_append_of_rewrite hr.beginsWith htag hrewrite
  exact ⟨_, hu, hany rest', hkept⟩

/-- A rule leaves no place where it applies and makes none for another one. -/
theorem absent_rewrite (hr : IsTag r) (hq : IsTag q) (hs : Apart s) (h : Absent q s ∨ q = r) :
    Absent q (r.rewrite s) := by
  intro t ht
  refine Decidable.byContradiction fun hne => ?_
  obtain ⟨u, hu, hsome, hkept⟩ := hr.exists_of_suffix_rewrite hq hs ht hne
  rcases h with h | rfl
  · exact hsome (h u hu)
  · exact hsome hkept

end IsTag

/-- None of the rules applies after all of them. -/
theorem absent_foldl {q : Rule} (hq : IsTag q) : ∀ (rs : List Rule) (s : Text), (∀ r ∈ rs, IsTag r) → Apart s →
    Absent q s ∨ q ∈ rs → Absent q (rs.foldl (fun s rule => rule.rewrite s) s)
  | [], _, _, _, h => h.elim id fun hq => absurd hq List.not_mem_nil
  | r :: rs, s, hrs, hs, h => by
    obtain ⟨hr, hrs⟩ := List.forall_mem_cons.mp hrs
    have hnext : Absent q (r.rewrite s) ∨ q ∈ rs := by
      rcases h with h | h
      · exact .inl (hr.absent_rewrite hq hs (.inl h))
      · rcases List.mem_cons.mp h with rfl | h
        · exact .inl (hr.absent_rewrite hq hs (.inr rfl))
        · exact .inr h
    exact absent_foldl hq rs _ hrs (hr.isElement.apart_rewrite hs) hnext

/-- A part of a text in which a rule applies nowhere. -/
theorem Absent.of_isInfix {r : Rule} (hr : IsTag r) {s t : Text} (h : Absent r s) (ht : t <:+: s) : Absent r t := by
  intro u hu
  refine Decidable.byContradiction fun hne => ?_
  obtain ⟨⟨out, rest⟩, hread⟩ := Option.ne_none_iff_exists'.mp hne
  obtain ⟨tag, rfl, -, hany⟩ := hr.reads hread
  obtain ⟨front, back, rfl⟩ := ht
  obtain ⟨front', rfl⟩ := hu
  have hsuffix : '<' :: (tag ++ '>' :: (rest ++ back)) <:+ front ++ (front' ++ '<' :: (tag ++ '>' :: rest)) ++ back :=
    ⟨front ++ front', by simp⟩
  exact hany _ (h _ hsuffix)

/-! ## Spellings -/

section Spellings

variable {olds : List Text} {new : Text} {ne : [] ∉ olds}

/-- A spelling is read in letters of any case. -/
theorem spellings_ne_none {tag : Text} (h : tag.map foldCase ∈ olds) (rest : Text) :
    (Rule.spellings olds new ne).atFront? (tag ++ rest) ≠ none := by
  intro hnone
  have hread : afterFolded? (tag.map foldCase) (tag ++ rest) = some rest := Text.behind_append rfl rest
  rw [List.findSome?_eq_none_iff.mp (Option.map_eq_none_iff.mp hnone) _ h] at hread
  cases hread

theorem foldCase_bracket : ∀ c ∈ brackets, foldCase c = c := by
  simp only [brackets, List.forall_mem_cons]
  exact ⟨by decide, by decide, by decide, List.forall_mem_nil _⟩

theorem isWhiteSpace_bracket : ∀ c ∈ brackets, isWhiteSpace c = false := by
  simp only [brackets, List.forall_mem_cons]
  exact ⟨by decide, by decide, by decide, List.forall_mem_nil _⟩

/-- Nothing but a bracket folds to one. -/
theorem not_bracket_of_map {tag name : Text} (h : tag.map foldCase = name) (hname : ∀ c ∈ name, c ∉ brackets) :
    ∀ c ∈ tag, c ∉ brackets := by
  intro c hc hmem
  refine hname c ?_ hmem
  rw [← h, ← foldCase_bracket c hmem]
  exact List.mem_map_of_mem hc

/-- The rule for the tags with some names, none of which has a bracket inside. -/
theorem isTag_spellings (names : List Text) (holds : olds = names.map fun name => '<' :: (name ++ ['>']))
    (hnames : ∀ name ∈ names, ∀ c ∈ name, c ∉ brackets) (hnew : '<' ∉ new ∧ '&' ∉ new) :
    IsTag (.spellings olds new ne) where
  beginsWith c s hc := by
    refine Option.map_eq_none_iff.mpr (List.findSome?_eq_none_iff.mpr fun old hold => ?_)
    obtain ⟨name, -, rfl⟩ := List.mem_map.mp (holds ▸ hold)
    exact Text.afterFolded_cons_eq_none hc
  reads h := by
    obtain ⟨rest, hfind, he⟩ := Option.map_eq_some_iff.mp h
    obtain ⟨-, rfl⟩ := Prod.mk.inj he
    obtain ⟨old, hold, hread⟩ := List.exists_of_findSome?_eq_some hfind
    obtain ⟨name, hname, rfl⟩ := List.mem_map.mp (holds ▸ hold)
    obtain ⟨tag, rfl, htag⟩ := Text.exists_of_afterFolded_tag name hread
    refine ⟨tag, rfl, not_bracket_of_map htag (hnames name hname), fun rest' => ?_⟩
    have hless : foldCase '<' = '<' := foldCase_bracket _ (by decide)
    have hgreater : foldCase '>' = '>' := foldCase_bracket _ (by decide)
    have hfold : ('<' :: (tag ++ ['>'])).map foldCase ∈ olds := by simpa [htag, hless, hgreater] using hold
    simpa using @spellings_ne_none olds new ne _ hfold rest'
  writes h := by
    obtain ⟨rest, -, he⟩ := Option.map_eq_some_iff.mp h
    obtain ⟨rfl, -⟩ := Prod.mk.inj he
    exact hnew

end Spellings

/-! ## Line breaks -/

/-- The text behind the end of a tag: a slash or none, and `>`. -/
def tagEnd? (s : Text) : Option Text :=
  Text.after? ['>'] ((Text.after? ['/'] s).getD s)

theorem lineBreak_eq_bind (s : Text) :
    lineBreak? s = (afterFolded? "<br".toList s).bind fun s => tagEnd? (trimStart s) :=
  rfl

theorem exists_of_tagEnd {s rest : Text} (h : tagEnd? s = some rest) :
    ∃ slash, s = slash ++ '>' :: rest ∧ (slash = [] ∨ slash = ['/']) := by
  rw [tagEnd?] at h
  cases hslash : Text.after? ['/'] s with
  | none =>
    rw [hslash, Option.getD_none] at h
    have hs : s = ['>'] ++ rest := Text.eq_append_of_after h
    exact ⟨[], hs, .inl rfl⟩
  | some t =>
    rw [hslash, Option.getD_some] at h
    exact ⟨['/'], by rw [Text.eq_append_of_after hslash, Text.eq_append_of_after h]; rfl, .inr rfl⟩

theorem exists_of_lineBreak {s rest : Text} (h : lineBreak? s = some rest) :
    ∃ name space slash, s = '<' :: (name ++ space ++ slash ++ '>' :: rest) ∧ name.map foldCase = "br".toList ∧
      (∀ c ∈ space, isWhiteSpace c = true) ∧ (slash = [] ∨ slash = ['/']) := by
  obtain ⟨s₁, hread, hend⟩ := Option.bind_eq_some_iff.mp ((lineBreak_eq_bind s).symm.trans h)
  obtain ⟨name, rfl, hname⟩ := Text.exists_of_afterFolded_cons "br".toList hread
  obtain ⟨space, hs₁, hspace⟩ := Text.exists_eq_append_trimStart s₁
  obtain ⟨slash, htrim, hslash⟩ := exists_of_tagEnd hend
  refine ⟨name, space, slash, ?_, hname, hspace, hslash⟩
  rw [hs₁, htrim]
  simp

theorem lineBreak_append {name space slash : Text} (hname : name.map foldCase = "<br".toList)
    (hspace : ∀ c ∈ space, isWhiteSpace c = true) (hslash : slash = [] ∨ slash = ['/']) (rest : Text) :
    lineBreak? (name ++ space ++ slash ++ '>' :: rest) = some rest := by
  have hread : afterFolded? "<br".toList (name ++ (space ++ (slash ++ '>' :: rest))) =
      some (space ++ (slash ++ '>' :: rest)) := Text.behind_append hname _
  rw [List.append_assoc, List.append_assoc, lineBreak_eq_bind, hread, Option.bind_some, Text.trimStart_space hspace]
  rcases hslash with rfl | rfl <;> rfl

theorem isTag_lineBreak : IsTag lineBreak where
  beginsWith := beginsWith_tagRules lineBreak (by simp [tagRules])
  reads h := by
    obtain ⟨rest, hbreak, he⟩ := Option.map_eq_some_iff.mp h
    obtain ⟨-, rfl⟩ := Prod.mk.inj he
    obtain ⟨name, space, slash, rfl, hname, hspace, hslash⟩ := exists_of_lineBreak hbreak
    refine ⟨name ++ space ++ slash, rfl, fun c hc hmem => ?_, fun rest' hnone => ?_⟩
    · rcases List.mem_append.mp hc with hc | hc
      · rcases List.mem_append.mp hc with hc | hc
        · exact not_bracket_of_map hname (by simp [brackets]) c hc hmem
        · exact absurd ((hspace c hc).symm.trans (isWhiteSpace_bracket c hmem)) Bool.noConfusion
      · rcases hslash with rfl | rfl
        · cases hc
        · obtain rfl := List.mem_singleton.mp hc
          exact absurd hmem (by decide)
    · have hread : lineBreak? ('<' :: name ++ space ++ slash ++ '>' :: rest') = some rest' :=
        lineBreak_append (by rw [List.map_cons, hname]; rfl) hspace hslash rest'
      exact absurd (hread.symm.trans (Option.map_eq_none_iff.mp hnone)) (Option.some_ne_none rest')
  writes h := by
    obtain ⟨rest, -, he⟩ := Option.map_eq_some_iff.mp h
    obtain ⟨rfl, -⟩ := Prod.mk.inj he
    decide

theorem isTag_of_mem : ∀ r ∈ tagRules, IsTag r := by
  simp only [tagRules, List.forall_mem_cons]
  refine ⟨?_, ?_, isTag_lineBreak, ?_, ?_, List.forall_mem_nil _⟩
  · exact isTag_spellings ["strong".toList, "/strong".toList, "b".toList, "/b".toList] rfl (by simp [brackets])
      (by decide)
  · exact isTag_spellings ["em".toList, "/em".toList, "i".toList, "/i".toList] rfl (by simp [brackets]) (by decide)
  · exact isTag_spellings ["p".toList] rfl (by simp [brackets]) (by decide)
  · exact isTag_spellings ["/p".toList] rfl (by simp [brackets]) (by decide)

/-! ## All rules -/

theorem isElement_of_mem : ∀ r ∈ elementRules, IsElement r := by
  simp only [elementRules, codeRules, List.cons_append, List.nil_append, List.forall_mem_cons]
  exact ⟨isElement_codeBlock, isElement_codeSpan, isElement_link, fun r hr => (isTag_of_mem r hr).isElement⟩

/-- No `&` comes about. -/
theorem ampersand_not_mem_rewriteElements {s : Text} (h : '&' ∉ s) : '&' ∉ rewriteElements s := by
  rw [rewriteElements_eq_foldl]
  exact List.foldlRecOn (motive := fun s => '&' ∉ s) elementRules _ h fun s hs r hr =>
    (isElement_of_mem r hr).not_mem_rewrite hs

/-- **No single tag is left by the rules** in a text whose brackets are apart. -/
theorem absent_rewriteElements {s : Text} (h : Apart s) {q : Rule} (hq : q ∈ tagRules) :
    Absent q (rewriteElements s) := by
  have hsplit : elementRules = (codeRules ++ [link]) ++ tagRules := rfl
  rw [rewriteElements_eq_foldl, hsplit, List.foldl_append]
  have hfront : Apart ((codeRules ++ [link]).foldl (fun s rule => rule.rewrite s) s) :=
    List.foldlRecOn _ _ h fun s hs r hr =>
      (isElement_of_mem r (hsplit ▸ List.mem_append_left tagRules hr)).apart_rewrite hs
  exact absent_foldl (isTag_of_mem q hq) tagRules _ isTag_of_mem hfront (.inr hq)

/-! ## Collapsing -/

/-- A spelling without a newline is read behind collapsing where it is read before. -/
theorem behind_collapse {fold : Char → Char} {spelling : Text} (h : fold '\n' ∉ spelling) (s : Text) :
    Text.behind? fold spelling (collapse s) = (Text.behind? fold spelling s).map collapse :=
  Rule.behind_rewrite Markdown.beginsWith_newline h
    (fun _ _ _ hread => ⟨'\n', ['\n'], (Markdown.eq_of_blankRun hread).1, h⟩) s

theorem tagEnd_collapse (s : Text) : tagEnd? (collapse s) = (tagEnd? s).map collapse := by
  have hslash : Text.after? ['/'] (collapse s) = (Text.after? ['/'] s).map collapse := behind_collapse (by decide) s
  have hend (s : Text) : Text.after? ['>'] (collapse s) = (Text.after? ['>'] s).map collapse :=
    behind_collapse (by decide) s
  rw [tagEnd?, tagEnd?, hslash]
  cases Text.after? ['/'] s with
  | none => exact hend s
  | some t => exact hend t

theorem lineBreak_collapse (s : Text) : lineBreak? (collapse s) = (lineBreak? s).map collapse := by
  have hname : afterFolded? "<br".toList (collapse s) = (afterFolded? "<br".toList s).map collapse :=
    behind_collapse (by decide) s
  rw [lineBreak_eq_bind, lineBreak_eq_bind, hname]
  cases afterFolded? "<br".toList s with
  | none => rfl
  | some t => rw [Option.map_some, Option.bind_some, Option.bind_some, Markdown.trimStart_collapse, tagEnd_collapse]

theorem spellings_collapse {olds : List Text} {new : Text} {ne : [] ∉ olds} (h : ∀ old ∈ olds, foldCase '\n' ∉ old)
    {s : Text} (hs : (Rule.spellings olds new ne).atFront? s = none) :
    (Rule.spellings olds new ne).atFront? (collapse s) = none := by
  have hnone := List.findSome?_eq_none_iff.mp (Option.map_eq_none_iff.mp hs)
  refine Option.map_eq_none_iff.mpr (List.findSome?_eq_none_iff.mpr fun old hold => ?_)
  rw [afterFolded?, behind_collapse (h old hold), ← afterFolded?, hnone old hold, Option.map_none]

/-- A rule for single tags that does not apply does not apply behind collapsing. -/
theorem atFront_collapse : ∀ r ∈ tagRules, ∀ s, r.atFront? s = none → r.atFront? (collapse s) = none := by
  simp only [tagRules, List.forall_mem_cons]
  refine ⟨fun _ => spellings_collapse (by decide), fun _ => spellings_collapse (by decide), fun s hs => ?_,
    fun _ => spellings_collapse (by decide), fun _ => spellings_collapse (by decide), by simp⟩
  have hnone : lineBreak? s = none := Option.map_eq_none_iff.mp hs
  exact Option.map_eq_none_iff.mpr (by rw [lineBreak_collapse, hnone, Option.map_none])

/-- Collapsing blank lines makes no tag. -/
theorem absent_collapse {q : Rule} (hq : q ∈ tagRules) {s : Text} (h : Absent q s) : Absent q (collapse s) := by
  intro t ht
  refine Decidable.byContradiction fun hne => ?_
  obtain ⟨t, rfl⟩ := (isTag_of_mem q hq).beginsWith.eq_cons hne
  have hwrites : ∀ s out rest, Markdown.blankRun.atFront? s = some (out, rest) → '<' ∉ out ∧ rest <:+ s := by
    intro s out rest hread
    obtain ⟨rfl, hrun⟩ := Markdown.eq_of_blankRun hread
    obtain ⟨ls, -, -, rfl, -⟩ := Markdown.exists_of_afterBlankRun hrun
    exact ⟨by decide, ⟨'\n' :: ls.flatMap (· ++ ['\n']), rfl⟩⟩
  obtain ⟨u, hu, rfl, hkept⟩ := Rule.exists_of_cons_suffix_rewrite hwrites ht
  have hcollapse : collapse ('<' :: u) = '<' :: collapse u := Rule.rewrite_of_none hkept
  exact hne (hcollapse ▸ atFront_collapse q hq _ (h _ hu))

/-! ## Markdown -/

/-- A tag of a paragraph, of strong text or of emphasis, or a line break with white space and a slash or without, in
letters of any case. -/
inductive SimpleTag : Text → Prop
  | paragraph {tag : Text} (h : tag.map foldCase ∈ ["<p>".toList, "</p>".toList]) : SimpleTag tag
  | strong {tag : Text}
      (h : tag.map foldCase ∈ ["<strong>".toList, "</strong>".toList, "<b>".toList, "</b>".toList]) : SimpleTag tag
  | emphasis {tag : Text}
      (h : tag.map foldCase ∈ ["<em>".toList, "</em>".toList, "<i>".toList, "</i>".toList]) : SimpleTag tag
  | lineBreak {name space slash : Text} (hname : name.map foldCase = "<br".toList)
      (hspace : ∀ c ∈ space, isWhiteSpace c = true) (hslash : slash = [] ∨ slash = ['/']) :
      SimpleTag (name ++ space ++ slash ++ ['>'])

/-- Each simple tag is read by one of the rules. -/
theorem SimpleTag.exists_rule {tag : Text} (h : SimpleTag tag) :
    ∃ q ∈ tagRules, ∀ rest, q.atFront? (tag ++ rest) ≠ none := by
  cases h with
  | paragraph h =>
    rcases List.mem_pair.mp h with h | h
    · exact ⟨paragraphStart, by simp [tagRules], spellings_ne_none (List.mem_singleton.mpr h)⟩
    · exact ⟨paragraphEnd, by simp [tagRules], spellings_ne_none (List.mem_singleton.mpr h)⟩
  | strong h => exact ⟨Html.strong, by simp [tagRules], spellings_ne_none h⟩
  | emphasis h => exact ⟨Html.emphasis, by simp [tagRules], spellings_ne_none h⟩
  | @lineBreak name space slash hname hspace hslash =>
    refine ⟨Html.lineBreak, by simp [tagRules], fun rest hnone => ?_⟩
    have hread := lineBreak_append hname hspace hslash rest
    have hnil : lineBreak? (name ++ space ++ slash ++ ['>'] ++ rest) = none := Option.map_eq_none_iff.mp hnone
    rw [List.append_assoc _ ['>'] rest, List.singleton_append, hread] at hnil
    cases hnil

theorem absent_toMarkdown {s : Text} (hamp : '&' ∉ s) (h : Apart s) {q : Rule} (hq : q ∈ tagRules) :
    Absent q (toMarkdown s) := by
  have hcollapse := absent_collapse hq (absent_rewriteElements h hq)
  rw [toMarkdown, decode_of_not_mem (ampersand_not_mem_rewriteElements hamp)]
  exact hcollapse.of_isInfix (isTag_of_mem q hq) (Text.trim_isInfix _)

/-- **No simple tag is left in Markdown and none comes about**, whether tags have partners or not, if the HTML has no
`&` and no `<` between a `<` and the next `>`. -/
theorem toMarkdown_has_no_simple_tag {s : Text} (hamp : '&' ∉ s) (h : TagsApart s) {tag : Text} (htag : SimpleTag tag) :
    ¬ tag <:+: toMarkdown s := by
  rintro ⟨front, rest, he⟩
  obtain ⟨q, hq, hread⟩ := htag.exists_rule
  exact hread rest (absent_toMarkdown hamp h.apart hq _ ⟨front, by rw [← he, List.append_assoc]⟩)

/-- A link whose target ends within a tag, a tag inside of a line break, and letters of any case. -/
theorem toMarkdown_has_no_simple_tag_in_link :
    let s := "<a href=\"x>y<br\" z>l<STRONG></a>/><p>q</P>".toList
    '&' ∉ s ∧ TagsApart s ∧ SimpleTag "<BR />".toList ∧ toMarkdown s = "[l**](x>y<br)/>q".toList ∧
      ¬ "<BR />".toList <:+: toMarkdown s := by
  intro s
  have hamp : '&' ∉ s := by decide
  have hs : TagsApart s := by decide
  have htag : SimpleTag "<BR />".toList :=
    @SimpleTag.lineBreak "<BR".toList " ".toList "/".toList (by decide) (List.all_eq_true.mp (by decide)) (.inr rfl)
  exact ⟨hamp, hs, htag, by decide +kernel, toMarkdown_has_no_simple_tag hamp hs htag⟩

end ApiReference.Html
