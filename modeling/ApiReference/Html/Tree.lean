import ApiReference.Html.Entity

/-!
# Descriptions as trees

A description is a list of blocks, and a paragraph a list of inline elements. A tree has a text in HTML (`html`) and
one in Markdown (`markdown`); neither is derived from the other.

- `Inline.html` escapes what is text, `Inline.markdown` writes it as it is;
- `Inline.LinksNotNested` holds of trees without a link inside a link.
-/

namespace ApiReference.Html

/-! ## Trees -/

/-- An element of a paragraph. -/
inductive Inline
  | text (s : Text)
  | code (s : Text)
  | link (target : Text) (title : Option Text) (label : List Inline)
  | strong (content : List Inline)
  | emphasis (content : List Inline)
  | lineBreak

/-- A block of a description: a paragraph, or code in a language that may be named. -/
inductive Block
  | paragraph (content : List Inline)
  | code (language : Option Text) (s : Text)

/-! ## HTML -/

/-- An attribute of a tag, if it has a value. -/
def attributeText (name : Text) : Option Text → Text
  | none => []
  | some value => ' ' :: name ++ "=\"".toList ++ Entity.escape value ++ "\"".toList

mutual

/-- The HTML of an inline element. -/
def Inline.html : Inline → Text
  | .text s => Entity.escape s
  | .code s => "<code>".toList ++ Entity.escape s ++ "</code>".toList
  | .link target title label =>
    "<a".toList ++ attributeText "href".toList (some target) ++ attributeText "title".toList title ++ ">".toList ++
      Inline.htmlAll label ++ "</a>".toList
  | .strong content => "<strong>".toList ++ Inline.htmlAll content ++ "</strong>".toList
  | .emphasis content => "<em>".toList ++ Inline.htmlAll content ++ "</em>".toList
  | .lineBreak => "<br />".toList

/-- The HTML of inline elements, one after another. -/
def Inline.htmlAll : List Inline → Text
  | [] => []
  | i :: is => Inline.html i ++ Inline.htmlAll is

end

/-- The HTML of a block. -/
def Block.html : Block → Text
  | .paragraph content => "<p>".toList ++ Inline.htmlAll content ++ "</p>".toList
  | .code language s =>
    "<pre><code".toList ++ attributeText "class".toList language ++ ">".toList ++ Entity.escape s ++
      "</code></pre>".toList

/-- The HTML of a description: its blocks with newlines between them. -/
def html (blocks : List Block) : Text :=
  List.intercalate ['\n'] (blocks.map Block.html)

/-! ## Markdown -/

mutual

/-- The Markdown of an inline element. -/
def Inline.markdown : Inline → Text
  | .text s => s
  | .code s => '`' :: s ++ ['`']
  | .link target _ label => '[' :: Inline.markdownAll label ++ "](".toList ++ target ++ [')']
  | .strong content => "**".toList ++ Inline.markdownAll content ++ "**".toList
  | .emphasis content => '_' :: Inline.markdownAll content ++ ['_']
  | .lineBreak => ['\n']

/-- The Markdown of inline elements, one after another. -/
def Inline.markdownAll : List Inline → Text
  | [] => []
  | i :: is => Inline.markdown i ++ Inline.markdownAll is

end

/-- The Markdown of a block: a paragraph and an empty line, or a fence with an empty line on either side. -/
def Block.markdown : Block → Text
  | .paragraph content => Inline.markdownAll content ++ "\n\n".toList
  | .code _ s => "\n\n```\n".toList ++ Text.trimEnd s ++ "\n```\n\n".toList

/-- The Markdown of a description: its blocks with newlines between them. -/
def markdown (blocks : List Block) : Text :=
  List.intercalate ['\n'] (blocks.map Block.markdown)

/-! ## Links -/

mutual

/-- Whether an element holds no link. -/
def Inline.LinkFree : Inline → Prop
  | .link _ _ _ => False
  | .strong content => Inline.LinkFreeAll content
  | .emphasis content => Inline.LinkFreeAll content
  | _ => True

/-- Whether elements hold no link. -/
def Inline.LinkFreeAll : List Inline → Prop
  | [] => True
  | i :: is => Inline.LinkFree i ∧ Inline.LinkFreeAll is

end

mutual

/-- Whether no link of an element stands inside another. -/
def Inline.LinksNotNested : Inline → Prop
  | .link _ _ label => Inline.LinkFreeAll label
  | .strong content => Inline.LinksNotNestedAll content
  | .emphasis content => Inline.LinksNotNestedAll content
  | _ => True

/-- Whether no link of some elements stands inside another. -/
def Inline.LinksNotNestedAll : List Inline → Prop
  | [] => True
  | i :: is => Inline.LinksNotNested i ∧ Inline.LinksNotNestedAll is

end

/-- Whether no link of a block stands inside another. -/
def Block.LinksNotNested : Block → Prop
  | .paragraph content => Inline.LinksNotNestedAll content
  | .code _ _ => True

end ApiReference.Html
