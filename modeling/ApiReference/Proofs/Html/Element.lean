import ApiReference.Html.ToMarkdown
import ApiReference.Html.Tree
import ApiReference.Proofs.Html.Entity
import Mathlib.Data.List.TakeWhile

/-!
# One element

What each rule makes of the elements it is meant for, and that it keeps all others, whatever follows.

- no rule applies away from an opening bracket (`beginsWith_bracket`), and no text or attribute has one
  (`not_mem_escape`);
- a code block, a code span and a link, each read as a whole (`codeBlock_passes`, `codeSpan_passes`, `link_passes`);
- a single tag is kept up to its own rule, also inside a link (`PassesInLink.tag`).
-/

namespace ApiReference.Html

open Text (Rule Skips afterFolded? past? upTo? trimStart trimEnd isWhiteSpace)
open Text.Rule (Passes PassesAll NoneApplies)

/-! ## The rules -/

/-- The rules for code, before those for links. -/
def codeRules : List Rule :=
  [codeBlock, codeSpan]

/-- The rules for single tags, behind those for links. -/
def tagRules : List Rule :=
  [strong, emphasis, lineBreak, paragraphStart, paragraphEnd]

/-- The rules of `rewriteElements`, in order. -/
def elementRules : List Rule :=
  codeRules ++ link :: tagRules

theorem rewriteElements_eq_foldl (s : Text) : rewriteElements s = elementRules.foldl (fun s rule => rule.rewrite s) s :=
  rfl

/-- No rule applies away from an opening bracket. -/
theorem beginsWith_bracket : ∀ r ∈ elementRules, r.BeginsWith '<' := by
  simp only [elementRules, codeRules, tagRules, List.cons_append, List.nil_append, List.forall_mem_cons]
  refine ⟨?_, ?_, ?_, ?_, ?_, ?_, ?_, ?_, by simp⟩
  all_goals
    intro c s hc
    simp [codeBlock, codeBlock?, codeSpan, codeSpan?, link, anchor?, strong, emphasis, lineBreak, lineBreak?,
      paragraphStart, paragraphEnd, Rule.spellings, Text.afterFolded_cons_eq_none hc]

theorem beginsWith_codeRules : ∀ r ∈ codeRules, r.BeginsWith '<' :=
  fun r hr => beginsWith_bracket r (List.mem_append_left _ hr)

theorem beginsWith_link : link.BeginsWith '<' :=
  beginsWith_bracket link (List.mem_append_right _ List.mem_cons_self)

theorem beginsWith_tagRules : ∀ r ∈ tagRules, r.BeginsWith '<' :=
  fun r hr => beginsWith_bracket r (List.mem_append_right _ (List.mem_cons_of_mem _ hr))

/-! ## Text and attributes -/

/-- The characters with a meaning in tags, none of which is left in escaped text. -/
def structural : List Char :=
  ['<', '>', '"', '\'']

theorem not_mem_escapeChar {x : Char} (hx : x ∈ structural) (c : Char) : x ∉ Entity.escapeChar c := by
  have entities : ∀ p ∈ Entity.table, ∀ x ∈ structural, x ∉ p.1 := by simp [Entity.table, structural]
  have characters : ∀ x ∈ structural, ∃ p ∈ Entity.table, p.2 = x := by simp [Entity.table, structural]
  unfold Entity.escapeChar
  split
  · rename_i entity d h
    exact entities _ (List.mem_of_find?_eq_some h) x hx
  · rename_i h
    intro hmem
    obtain rfl : x = c := by simpa using hmem
    obtain ⟨p, hp, hpx⟩ := characters x hx
    simpa [hpx] using List.find?_eq_none.mp h p hp

/-- No bracket and no quote is left in escaped text. -/
theorem not_mem_escape {x : Char} (hx : x ∈ structural) (s : Text) : x ∉ Entity.escape s := by
  intro h
  obtain ⟨c, -, hc⟩ := List.mem_flatMap.mp h
  exact not_mem_escapeChar hx c hc

/-- No bracket is left in an attribute. -/
theorem not_mem_attributeText {x : Char} (hx : x ∈ ['<', '>']) {name : Text} (hname : x ∉ name) (value : Option Text) :
    x ∉ attributeText name value := by
  have hs : x ∈ structural := List.mem_append_left ['"', '\''] hx
  have hne : x ≠ ' ' ∧ x ≠ '=' ∧ x ≠ '"' := by
    simp only [List.mem_cons, List.not_mem_nil, or_false] at hx
    rcases hx with rfl | rfl <;> decide
  cases value with
  | none => simp [attributeText]
  | some value => simp [attributeText, hname, not_mem_escape hs value, hne]

/-! ## White space at the end of code -/

/-- The text does not end with white space. -/
def EndsSolid (s : Text) : Prop :=
  ∀ c, s.getLast? = some c → isWhiteSpace c = false

/-- A text is what is left of it without the white space at its end, and this white space. -/
theorem exists_eq_trimEnd_append (s : Text) :
    ∃ space, s = trimEnd s ++ space ∧ EndsSolid (trimEnd s) ∧ ∀ c ∈ space, isWhiteSpace c = true := by
  refine ⟨(s.reverse.takeWhile isWhiteSpace).reverse, ?_, ?_, ?_⟩
  · rw [trimEnd, trimStart, ← List.reverse_append, List.takeWhile_append_dropWhile, List.reverse_reverse]
  · intro c hc
    rw [trimEnd, trimStart, List.getLast?_reverse] at hc
    have := List.head?_dropWhile_not isWhiteSpace s.reverse
    rw [hc] at this
    simpa using this
  · intro c hc
    exact List.mem_takeWhile_imp (List.mem_reverse.mp hc)

theorem escape_append (s t : Text) : Entity.escape (s ++ t) = Entity.escape s ++ Entity.escape t :=
  List.flatMap_append

/-- White space is not escaped. -/
theorem escape_space {space : Text} (h : ∀ c ∈ space, isWhiteSpace c = true) : Entity.escape space = space := by
  have hchar (c : Char) (hc : isWhiteSpace c = true) : Entity.escapeChar c = [c] := by
    unfold Entity.escapeChar
    split
    · rename_i entity d hf
      have solid : ∀ p ∈ Entity.table, isWhiteSpace p.2 = false := by decide
      have hd : d = c := by simpa using List.find?_some hf
      have := solid _ (List.mem_of_find?_eq_some hf)
      simp [hd, hc] at this
    · rfl
  induction space with
  | nil => rfl
  | cons c space ih =>
    have hrest := ih fun d hd => h d (List.mem_cons_of_mem _ hd)
    unfold Entity.escape at hrest ⊢
    rw [List.flatMap_cons, hchar c (h c List.mem_cons_self), hrest, List.singleton_append]

/-- Escaping does not put white space at the end. -/
theorem endsSolid_escape {s : Text} (h : EndsSolid s) : EndsSolid (Entity.escape s) := by
  rcases List.eq_nil_or_concat s with rfl | ⟨s, c, rfl⟩
  · exact h
  · rw [List.concat_eq_append] at h ⊢
    have hc : isWhiteSpace c = false := h c (by simp)
    intro x hx
    rw [escape_append, show Entity.escape [c] = Entity.escapeChar c by simp [Entity.escape]] at hx
    unfold Entity.escapeChar at hx
    split at hx
    · rename_i entity d hf
      have solid : ∀ p ∈ Entity.table, p.1.getLast? = some ';' := by decide
      have := solid _ (List.mem_of_find?_eq_some hf)
      rw [List.getLast?_append, this] at hx
      cases hx
      decide
    · rw [List.getLast?_concat] at hx
      cases hx
      exact hc

/-- Code without a bracket holds no end of a code block, wherever one looks for it. -/
theorem codeBlockEnd_eq_none {s : Text} (hs : '<' ∉ s) (hne : s ≠ []) (hend : EndsSolid s) (rest : Text) :
    codeBlockEnd? (s ++ rest) = none := by
  have hsolid : (s.dropWhile isWhiteSpace).isEmpty = false := by
    obtain ⟨c, hc⟩ := Option.ne_none_iff_exists'.mp (mt List.getLast?_eq_none_iff.mp hne)
    rw [List.isEmpty_eq_false_iff]
    intro h
    have := List.dropWhile_eq_nil_iff.mp h c (List.mem_of_getLast? hc)
    simp [hend c hc] at this
  have happ : trimStart (s ++ rest) = s.dropWhile isWhiteSpace ++ rest := by
    rw [trimStart, List.dropWhile_append, if_neg (by simp [hsolid])]
  cases hd : s.dropWhile isWhiteSpace with
  | nil => simp [hd] at hsolid
  | cons c t =>
    have hc : c ≠ '<' := by
      rintro rfl
      exact hs ((List.dropWhile_suffix isWhiteSpace).subset (hd ▸ List.mem_cons_self))
    have hfail : afterFolded? "</code>".toList (c :: (t ++ rest)) = none := Text.afterFolded_cons_eq_none hc
    rw [codeBlockEnd?, happ, hd, List.cons_append, hfail, Option.bind_none]

theorem skips_codeBlockEnd {s : Text} (hs : '<' ∉ s) (hend : EndsSolid s) : Skips codeBlockEnd? s := by
  induction s with
  | nil => exact .nil
  | cons c s ih =>
    refine .cons (fun rest => codeBlockEnd_eq_none hs (by simp) hend rest) (ih (fun h => hs (by simp [h])) ?_)
    intro d hd
    exact hend d (by rw [List.getLast?_cons, hd]; rfl)

/-! ## Code -/

/-- White space and a bracket: the white space is passed over. -/
theorem trimStart_space_append {space : Text} (h : ∀ c ∈ space, isWhiteSpace c = true) (rest : Text) :
    trimStart (space ++ '<' :: rest) = '<' :: rest := by
  rw [trimStart, List.dropWhile_append_of_pos h]
  rfl

/-- A code block becomes a fence around its content without the white space at its end. -/
theorem codeBlock_passes (language : Option Text) (s : Text) :
    codeBlock.Passes (Block.code language s).html
      ("\n\n```\n".toList ++ Entity.escape (trimEnd s) ++ "\n```\n\n".toList) := by
  obtain ⟨space, hs, hend, hspace⟩ := exists_eq_trimEnd_append s
  refine .of_some fun rest => ?_
  have hattr : '>' ∉ attributeText "class".toList language := not_mem_attributeText (by decide) (by decide) language
  have hcode : '<' ∉ Entity.escape (trimEnd s) := not_mem_escape (by decide) _
  have hclose : codeBlockEnd? (space ++ ("</code></pre>".toList ++ rest)) = some rest := by
    unfold codeBlockEnd?
    rw [show "</code></pre>".toList ++ rest = '<' :: ("/code></pre>".toList ++ rest) from rfl,
      trimStart_space_append hspace]
    rfl
  have htext : Entity.escape s = Entity.escape (trimEnd s) ++ space := by
    rw [← escape_space hspace, ← escape_append, ← hs]
  have hblock : codeBlock? ((Block.code language s).html ++ rest) = some (Entity.escape (trimEnd s), rest) := by
    have hhtml : (Block.code language s).html ++ rest =
        "<pre>".toList ++ ("<code".toList ++ (attributeText "class".toList language ++ '>' ::
          (Entity.escape (trimEnd s) ++ (space ++ ("</code></pre>".toList ++ rest))))) := by
      show "<pre><code".toList ++ attributeText "class".toList language ++ ">".toList ++ Entity.escape s ++
        "</code></pre>".toList ++ rest = _
      simp [htext]
    have hpre := Text.afterFolded_append (s := "<pre>".toList) rfl
    have hstart := Text.afterFolded_append (s := "<code".toList) rfl
    have htrim (t : Text) : trimStart ("<code".toList ++ t) = "<code".toList ++ t := rfl
    have hcontent := (skips_codeBlockEnd hcode (endsSolid_escape hend)).upTo_eq hclose
    rw [hhtml]
    simp only [codeBlock?, hpre, htrim, hstart, Text.past_append hattr, Option.bind_eq_bind, Option.bind_some]
    exact hcontent
  simp [codeBlock, hblock]

/-- A code span becomes its content between backticks. -/
theorem codeSpan_passes (s : Text) : codeSpan.Passes (Inline.code s).html ('`' :: Entity.escape s ++ ['`']) := by
  refine .of_some fun rest => ?_
  have hclose : afterFolded? "</code>".toList ("</code>".toList ++ rest) = some rest := rfl
  have hskip : Skips (afterFolded? "</code>".toList) (Entity.escape s) :=
    .of_not_mem (fun c t hc => Text.afterFolded_cons_eq_none hc) (not_mem_escape (by decide) s)
  have hspan : codeSpan? ((Inline.code s).html ++ rest) = some (Entity.escape s, rest) := by
    have hhtml : (Inline.code s).html ++ rest =
        "<code".toList ++ '>' :: (Entity.escape s ++ ("</code>".toList ++ rest)) := by
      show "<code>".toList ++ Entity.escape s ++ "</code>".toList ++ rest = _
      simp
    have hstart := Text.afterFolded_append (s := "<code".toList) rfl
    have hpast (t : Text) : past? '>' ('>' :: t) = some t := rfl
    have hcontent := hskip.upTo_eq hclose
    rw [hhtml]
    simp only [codeSpan?, hstart, hpast, Option.bind_eq_bind, Option.bind_some]
    exact hcontent
  simp [codeSpan, hspan]

/-! ## Links -/

/-- The end of a link. -/
def linkEnd? : Text → Option Text :=
  afterFolded? "</a>".toList

/-- The opening tag of a link. -/
def linkStart (target : Text) (title : Option Text) : Text :=
  "<a".toList ++ attributeText "href".toList (some target) ++ attributeText "title".toList title ++ ">".toList

theorem anchorInTag_of_some {s : Text} {a : Anchor} (h : anchorAtHref? s = some a) : anchorInTag? s = some a := by
  cases s with
  | nil => cases h
  | cons c s => rw [anchorInTag?, h]

/-- The attribute `href` of a link and what is behind it. -/
theorem anchorAtHref_eq (target : Text) (title : Option Text) {label : Text} (h : Skips linkEnd? label) (rest : Text) :
    anchorAtHref? ("href".toList ++ '=' :: '"' :: (Entity.escape target ++ '"' ::
      (attributeText "title".toList title ++ '>' :: (label ++ ("</a>".toList ++ rest))))) =
      some ⟨Entity.escape target, label, rest⟩ := by
  have htitle : '>' ∉ attributeText "title".toList title := not_mem_attributeText (by decide) (by decide) title
  have htarget : '"' ∉ Entity.escape target := not_mem_escape (by decide) target
  have hlabel : upTo? (afterFolded? "</a>".toList) (label ++ ("</a>".toList ++ rest)) = some (label, rest) :=
    h.upTo_eq rfl
  have hname := Text.afterFolded_append (s := "href".toList) rfl
  have hequals (t : Text) : Text.after? ['='] (trimStart ('=' :: t)) = some t := rfl
  have hquote (t : Text) : Text.after? ['"'] (trimStart ('"' :: t)) = some t := rfl
  simp only [anchorAtHref?, hname, hequals, hquote, Option.bind_eq_bind, Option.bind_some,
    Text.takeWhile_ne_append htarget, Text.past_append htarget, Text.past_append htitle]
  rw [hlabel]
  rfl

/-- A link is read as a whole, if no end of a link is in its content. -/
theorem anchor_eq (target : Text) (title : Option Text) {label : Text} (h : Skips linkEnd? label) (rest : Text) :
    anchor? (linkStart target title ++ label ++ "</a>".toList ++ rest) =
      some ⟨Entity.escape target, label, rest⟩ := by
  have hhtml : linkStart target title ++ label ++ "</a>".toList ++ rest =
      "<a".toList ++ ' ' :: ("href".toList ++ '=' :: '"' :: (Entity.escape target ++ '"' ::
        (attributeText "title".toList title ++ '>' :: (label ++ ("</a>".toList ++ rest))))) := by
    simp [linkStart, attributeText]
  have hstart := Text.afterFolded_append (s := "<a".toList) rfl
  rw [hhtml]
  simp only [anchor?, hstart, Option.bind_eq_bind, Option.bind_some]
  rw [if_pos (by decide)]
  exact anchorInTag_of_some (anchorAtHref_eq target title h rest)

/-- A link becomes its content in brackets and where it leads in parentheses. -/
theorem link_passes (target : Text) (title : Option Text) {label : Text} (h : Skips linkEnd? label) :
    link.Passes (linkStart target title ++ label ++ "</a>".toList)
      ('[' :: label ++ "](".toList ++ Entity.escape target ++ [')']) := by
  refine .of_some fun rest => ?_
  show (anchor? _).map _ = _
  rw [anchor_eq target title h rest]
  rfl

/-- The rules for code keep the tags of a link. -/
theorem passesAll_linkStart (target : Text) (title : Option Text) :
    PassesAll codeRules (linkStart target title) (linkStart target title) := by
  have htarget : '<' ∉ attributeText "href".toList (some target) := not_mem_attributeText (by decide) (by decide) _
  have htitle : '<' ∉ attributeText "title".toList title := not_mem_attributeText (by decide) (by decide) title
  have hcons : linkStart target title = '<' :: 'a' ::
      (attributeText "href".toList (some target) ++ attributeText "title".toList title ++ ['>']) := by
    simp [linkStart]
  rw [hcons]
  refine .of_forall (NoneApplies.passes ⟨fun _ => rfl, fun _ => rfl, trivial⟩ beginsWith_codeRules ?_)
  intro h
  simp only [List.mem_cons, List.mem_append, List.not_mem_nil, or_false] at h
  rcases h with h | (h | h) | h
  · exact absurd h (by decide)
  · exact htarget h
  · exact htitle h
  · exact absurd h (by decide)

theorem passesAll_linkEnd : PassesAll codeRules "</a>".toList "</a>".toList :=
  .of_forall (NoneApplies.passes ⟨fun _ => rfl, fun _ => rfl, trivial⟩ beginsWith_codeRules (by decide))

/-! ## Inside a link -/

/-- The rules turn `s` into `t`, whatever follows and also inside a link: the end of the link is not taken for one
in `s`, and the rule for links keeps what those for code make of `s`. -/
def PassesInLink (s t : Text) : Prop :=
  ∃ u, PassesAll codeRules s u ∧ Skips linkEnd? u ∧ link.Passes u u ∧ PassesAll tagRules u t

namespace PassesInLink

variable {s s' t t' : Text}

theorem passesAll (h : PassesInLink s t) : PassesAll elementRules s t := by
  obtain ⟨u, hcode, -, hlink, htags⟩ := h
  exact hcode.trans ⟨u, hlink, htags⟩

theorem append (h : PassesInLink s t) (h' : PassesInLink s' t') : PassesInLink (s ++ s') (t ++ t') := by
  obtain ⟨u, hcode, hskip, hlink, htags⟩ := h
  obtain ⟨u', hcode', hskip', hlink', htags'⟩ := h'
  exact ⟨u ++ u', hcode.append hcode', hskip.append hskip', hlink.append hlink', htags.append htags'⟩

/-- What the rules for code turn into a text without a bracket. -/
theorem of_code (h : PassesAll codeRules s t) (ht : '<' ∉ t) : PassesInLink s t :=
  ⟨t, h, .of_not_mem (fun _ _ hc => Text.afterFolded_cons_eq_none hc) ht, .of_not_mem beginsWith_link ht,
    .of_not_mem beginsWith_tagRules ht⟩

theorem nil : PassesInLink [] [] :=
  of_code (.nil _) (by simp)

/-- Text without a bracket. -/
theorem text (h : '<' ∉ s) : PassesInLink s s :=
  of_code (.of_not_mem beginsWith_codeRules h) h

/-- A code span. -/
theorem code (s : Text) : PassesInLink (Inline.code s).html ('`' :: Entity.escape s ++ ['`']) := by
  have hs := not_mem_escape (x := '<') (by decide) s
  have hkeep : codeBlock.Passes (Inline.code s).html (Inline.code s).html := by
    have hbegins := beginsWith_codeRules codeBlock (by simp [codeRules])
    have hstart : codeBlock.Passes "<code>".toList "<code>".toList :=
      .cons (fun _ => rfl) (.of_not_mem hbegins (by decide))
    have hend : codeBlock.Passes "</code>".toList "</code>".toList :=
      .cons (fun _ => rfl) (.of_not_mem hbegins (by decide))
    exact (hstart.append (.of_not_mem hbegins hs)).append hend
  exact of_code ⟨_, hkeep, _, codeSpan_passes s, rfl⟩ (by simp [hs])

/-- A single tag, which one of the rules turns into a mark. -/
theorem tag {tag mark : Text} (htag : '<' ∉ tag) (hcode : NoneApplies codeRules ('<' :: tag))
    (hend : ∀ rest, linkEnd? ('<' :: (tag ++ rest)) = none)
    (hlink : ∀ rest, link.atFront? ('<' :: (tag ++ rest)) = none)
    (h : PassesAll tagRules ('<' :: tag) mark) : PassesInLink ('<' :: tag) mark :=
  ⟨_, .of_forall (hcode.passes beginsWith_codeRules htag),
    .cons hend (.of_not_mem (fun _ _ hc => Text.afterFolded_cons_eq_none hc) htag),
    .cons hlink (.of_not_mem beginsWith_link htag), h⟩

theorem strongStart : PassesInLink "<strong>".toList "**".toList :=
  .tag (by decide) ⟨fun _ => rfl, fun _ => rfl, trivial⟩ (fun _ => rfl) (fun _ => rfl)
    (.mark [] [emphasis, lineBreak, paragraphStart, paragraphEnd] beginsWith_tagRules (by decide)
      trivial (fun _ => rfl) (by decide))

theorem strongEnd : PassesInLink "</strong>".toList "**".toList :=
  .tag (by decide) ⟨fun _ => rfl, fun _ => rfl, trivial⟩ (fun _ => rfl) (fun _ => rfl)
    (.mark [] [emphasis, lineBreak, paragraphStart, paragraphEnd] beginsWith_tagRules (by decide)
      trivial (fun _ => rfl) (by decide))

theorem emphasisStart : PassesInLink "<em>".toList "_".toList :=
  .tag (by decide) ⟨fun _ => rfl, fun _ => rfl, trivial⟩ (fun _ => rfl) (fun _ => rfl)
    (.mark [strong] [lineBreak, paragraphStart, paragraphEnd] beginsWith_tagRules (by decide)
      ⟨fun _ => rfl, trivial⟩ (fun _ => rfl) (by decide))

theorem emphasisEnd : PassesInLink "</em>".toList "_".toList :=
  .tag (by decide) ⟨fun _ => rfl, fun _ => rfl, trivial⟩ (fun _ => rfl) (fun _ => rfl)
    (.mark [strong] [lineBreak, paragraphStart, paragraphEnd] beginsWith_tagRules (by decide)
      ⟨fun _ => rfl, trivial⟩ (fun _ => rfl) (by decide))

theorem lineBreak : PassesInLink "<br />".toList "\n".toList :=
  .tag (by decide) ⟨fun _ => rfl, fun _ => rfl, trivial⟩ (fun _ => rfl) (fun _ => rfl)
    (.mark [strong, emphasis] [paragraphStart, paragraphEnd] beginsWith_tagRules (by decide)
      ⟨fun _ => rfl, fun _ => rfl, trivial⟩ (fun _ => rfl) (by decide))

theorem paragraphStart : PassesInLink "<p>".toList [] :=
  .tag (by decide) ⟨fun _ => rfl, fun _ => rfl, trivial⟩ (fun _ => rfl) (fun _ => rfl)
    (.mark [strong, emphasis, Html.lineBreak] [paragraphEnd] beginsWith_tagRules (by decide)
      ⟨fun _ => rfl, fun _ => rfl, fun _ => rfl, trivial⟩ (fun _ => rfl) (by decide))

theorem paragraphEnd : PassesInLink "</p>".toList "\n\n".toList :=
  .tag (by decide) ⟨fun _ => rfl, fun _ => rfl, trivial⟩ (fun _ => rfl) (fun _ => rfl)
    (.mark [strong, emphasis, Html.lineBreak, Html.paragraphStart] [] beginsWith_tagRules (by decide)
      ⟨fun _ => rfl, fun _ => rfl, fun _ => rfl, fun _ => rfl, trivial⟩ (fun _ => rfl) (by decide))

end PassesInLink

end ApiReference.Html
