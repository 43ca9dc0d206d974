import ApiReference.Html.Element
import ApiReference.Html.Entity
import ApiReference.Markdown.BlankLine

/-!
# From HTML to Markdown

`toMarkdown` brings the HTML of a description back to Markdown. The elements are rewritten one kind after another:
code blocks before code spans, since the tag of a code span is part of a code block, and code before links. Entities
are decoded when no tag is left to be recognised. Blank lines and outer white space come last.
-/

namespace ApiReference.Html

/-- The text with the elements replaced by their Markdown, one kind after another. -/
def rewriteElements (s : Text) : Text :=
  [codeBlock, codeSpan, link, strong, emphasis, lineBreak, paragraphStart, paragraphEnd].foldl
    (fun s rule => rule.rewrite s) s

/-- The Markdown of a description in HTML: elements rewritten, entities decoded, no two blank lines in a row and no
white space at the ends. -/
def toMarkdown (s : Text) : Text :=
  Text.trim (Markdown.collapse (Entity.decode (rewriteElements s)))

end ApiReference.Html
