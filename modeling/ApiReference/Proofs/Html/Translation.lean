import ApiReference.Proofs.Html.Element

/-!
# Descriptions are translated to Markdown

`rewriteElements` turns the HTML of a tree into its Markdown with the text still escaped, by induction on the tree:
elements inside a link (`Inline.passesInLink`), elements of a paragraph (`Inline.passesAll`), blocks
(`Block.passesAll`) and a description (`passesAll_html`). Decoding the entities gives the Markdown
(`toMarkdown_html`).
-/

namespace ApiReference.Html

open Text.Rule (PassesAll)
open Entity (escape)

/-! ## Elements -/

section Elements

variable {content : List Inline}

/-- Strong text, given what becomes of its content. -/
theorem escape_strong : escape (Inline.strong content).markdown =
    "**".toList ++ escape (Inline.markdownAll content) ++ "**".toList := by
  show escape ("**".toList ++ Inline.markdownAll content ++ "**".toList) = _
  rw [escape_append, escape_append]
  rfl

theorem escape_emphasis : escape (Inline.emphasis content).markdown =
    "_".toList ++ escape (Inline.markdownAll content) ++ "_".toList := by
  show escape ("_".toList ++ Inline.markdownAll content ++ "_".toList) = _
  rw [escape_append, escape_append]
  rfl

theorem escape_code (s : Text) : escape (Inline.code s).markdown = '`' :: escape s ++ ['`'] := by
  show escape ("`".toList ++ s ++ "`".toList) = _
  rw [escape_append, escape_append]
  rfl

theorem escape_link (target : Text) (title : Option Text) : escape (Inline.link target title content).markdown =
    "[".toList ++ escape (Inline.markdownAll content) ++ ("](".toList ++ escape target ++ ")".toList) := by
  show escape ("[".toList ++ Inline.markdownAll content ++ "](".toList ++ target ++ ")".toList) = _
  rw [escape_append, escape_append, escape_append, escape_append, List.append_assoc, List.append_assoc]
  rfl

/-- A link, given what becomes of its content inside a link. -/
theorem passesAll_link (target : Text) (title : Option Text)
    (h : PassesInLink (Inline.htmlAll content) (escape (Inline.markdownAll content))) :
    PassesAll elementRules (Inline.link target title content).html
      (escape (Inline.link target title content).markdown) := by
  obtain ⟨u, hcode, hskip, -, htags⟩ := h
  have htarget : '<' ∉ "](".toList ++ escape target ++ ")".toList := by
    have := not_mem_escape (x := '<') (by decide) target
    simp [this]
  have hcodeAll : PassesAll codeRules (Inline.link target title content).html
      (linkStart target title ++ u ++ "</a>".toList) :=
    ((passesAll_linkStart target title).append hcode).append passesAll_linkEnd
  have htagsAll : PassesAll tagRules ('[' :: u ++ "](".toList ++ escape target ++ [')'])
      (escape (Inline.link target title content).markdown) := by
    rw [escape_link, show '[' :: u ++ "](".toList ++ escape target ++ [')'] =
      "[".toList ++ u ++ ("](".toList ++ escape target ++ ")".toList) by simp]
    exact ((PassesAll.of_not_mem beginsWith_tagRules (by decide)).append htags).append
      (.of_not_mem beginsWith_tagRules htarget)
  exact hcodeAll.trans ⟨_, link_passes target title hskip, htagsAll⟩

end Elements

mutual

/-- Elements without links are translated, also inside a link. -/
theorem Inline.passesInLink : ∀ i : Inline, i.LinkFree → PassesInLink i.html (escape i.markdown)
  | .text s, _ => .text (not_mem_escape (by decide) s)
  | .code s, _ => by
    rw [escape_code]
    exact .code s
  | .link _ _ _, h => h.elim
  | .strong content, h => by
    rw [escape_strong]
    exact (PassesInLink.strongStart.append (Inline.passesInLink_all content h)).append PassesInLink.strongEnd
  | .emphasis content, h => by
    rw [escape_emphasis]
    exact (PassesInLink.emphasisStart.append (Inline.passesInLink_all content h)).append PassesInLink.emphasisEnd
  | .lineBreak, _ => PassesInLink.lineBreak

theorem Inline.passesInLink_all : ∀ is : List Inline, Inline.LinkFreeAll is →
    PassesInLink (Inline.htmlAll is) (escape (Inline.markdownAll is))
  | [], _ => .nil
  | i :: is, h => by
    show PassesInLink (i.html ++ Inline.htmlAll is) (escape (i.markdown ++ Inline.markdownAll is))
    rw [escape_append]
    exact (Inline.passesInLink i h.1).append (Inline.passesInLink_all is h.2)

end

mutual

/-- Elements in which no link stands inside another are translated. -/
theorem Inline.passesAll : ∀ i : Inline, i.LinksNotNested → PassesAll elementRules i.html (escape i.markdown)
  | .text s, _ => (PassesInLink.text (not_mem_escape (by decide) s)).passesAll
  | .code s, _ => by
    rw [escape_code]
    exact (PassesInLink.code s).passesAll
  | .link target title label, h => passesAll_link target title (Inline.passesInLink_all label h)
  | .strong content, h => by
    rw [escape_strong]
    exact (PassesInLink.strongStart.passesAll.append (Inline.passesAll_all content h)).append
      PassesInLink.strongEnd.passesAll
  | .emphasis content, h => by
    rw [escape_emphasis]
    exact (PassesInLink.emphasisStart.passesAll.append (Inline.passesAll_all content h)).append
      PassesInLink.emphasisEnd.passesAll
  | .lineBreak, _ => PassesInLink.lineBreak.passesAll

theorem Inline.passesAll_all : ∀ is : List Inline, Inline.LinksNotNestedAll is →
    PassesAll elementRules (Inline.htmlAll is) (escape (Inline.markdownAll is))
  | [], _ => .nil _
  | i :: is, h => by
    show PassesAll elementRules (i.html ++ Inline.htmlAll is) (escape (i.markdown ++ Inline.markdownAll is))
    rw [escape_append]
    exact (Inline.passesAll i h.1).append (Inline.passesAll_all is h.2)

end

/-! ## Blocks -/

theorem Block.passesAll : ∀ b : Block, b.LinksNotNested → PassesAll elementRules b.html (escape b.markdown)
  | .paragraph content, h => by
    show PassesAll elementRules ("<p>".toList ++ Inline.htmlAll content ++ "</p>".toList)
      (escape (Inline.markdownAll content ++ "\n\n".toList))
    rw [escape_append]
    exact (PassesInLink.paragraphStart.passesAll.append (Inline.passesAll_all content h)).append
      PassesInLink.paragraphEnd.passesAll
  | .code language s, _ => by
    have hs := not_mem_escape (x := '<') (by decide) (Text.trimEnd s)
    show PassesAll elementRules _ (escape ("\n\n```\n".toList ++ Text.trimEnd s ++ "\n```\n\n".toList))
    rw [escape_append, escape_append]
    refine ⟨_, codeBlock_passes language s, .of_not_mem (fun r hr => beginsWith_bracket r ?_) (by simp [hs])⟩
    exact List.mem_cons_of_mem codeBlock hr

/-- The elements of a description become its Markdown, in which the text is still escaped. -/
theorem passesAll_html : ∀ blocks : List Block, (∀ b ∈ blocks, b.LinksNotNested) →
    PassesAll elementRules (html blocks) (escape (markdown blocks))
  | [], _ => .nil _
  | [b], h => by
    simpa [html, markdown] using b.passesAll (h b (by simp))
  | b :: b' :: blocks, h => by
    have hb := b.passesAll (h b (by simp))
    have hrest := passesAll_html (b' :: blocks) fun b hb => h b (by simp [hb])
    have hnewline : PassesAll elementRules ['\n'] ['\n'] := .of_not_mem beginsWith_bracket (by decide)
    have hhtml : html (b :: b' :: blocks) = b.html ++ ['\n'] ++ html (b' :: blocks) := by
      simp [html, List.intercalate_cons_cons]
    have hmarkdown : markdown (b :: b' :: blocks) = b.markdown ++ ['\n'] ++ markdown (b' :: blocks) := by
      simp [markdown, List.intercalate_cons_cons]
    rw [hhtml, hmarkdown, escape_append, escape_append]
    exact (hb.append hnewline).append hrest

/-! ## Descriptions -/

/-- **A description is translated to its Markdown**: the HTML of a tree in which no link stands inside another becomes
the Markdown of the tree, with one empty line for several and without white space at its ends. -/
theorem toMarkdown_html {blocks : List Block} (h : ∀ b ∈ blocks, b.LinksNotNested) :
    toMarkdown (html blocks) = Text.trim (Markdown.collapse (markdown blocks)) := by
  unfold toMarkdown
  rw [rewriteElements_eq_foldl, (passesAll_html blocks h).foldl_eq, Entity.decode_escape]

/-- A paragraph with a link in strong text, and a code block with white space at its end. -/
theorem toMarkdown_html_paragraph_and_code :
    let paragraph : Block := .paragraph [.text "a<b & ".toList, .strong [.link "x?a&b".toList (some "\">".toList)
      [.emphasis [.code "</a>".toList], .lineBreak, .text "&lt;".toList]]]
    let code : Block := .code (some "js".toList) "1 < 2\n\t".toList
    (∀ b ∈ [paragraph, code], b.LinksNotNested) ∧
      toMarkdown (html [paragraph, code]) =
        "a<b & **[_`</a>`_\n&lt;](x?a&b)**\n\n```\n1 < 2\n```".toList := by
  intro paragraph code
  have h : ∀ b ∈ [paragraph, code], b.LinksNotNested := by
    intro b hb
    simp only [List.mem_cons, List.not_mem_nil, or_false] at hb
    rcases hb with rfl | rfl
    · exact ⟨trivial, ⟨⟨⟨trivial, trivial⟩, trivial, trivial, trivial⟩, trivial⟩, trivial⟩
    · trivial
  have hmarkdown : Text.trim (Markdown.collapse (markdown [paragraph, code])) =
      "a<b & **[_`</a>`_\n&lt;](x?a&b)**\n\n```\n1 < 2\n```".toList := by decide +kernel
  exact ⟨h, (toMarkdown_html h).trans hmarkdown⟩

end ApiReference.Html
