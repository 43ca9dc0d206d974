import ApiReference.Text.Rule

/-!
# Elements and their Markdown

One rewriting rule for each kind of element a description may hold. An element is recognised by its spelling alone,
in letters of any case; no tree is built, so a tag without its partner is left as it stands.

- `codeBlock`: `<pre><code>` to `</code></pre>` becomes a fenced block;
- `codeSpan`: `<code>` to `</code>` becomes a code span;
- `link`: `<a href="…">` to `</a>` becomes a link;
- `strong`, `emphasis`, `lineBreak`, `paragraphStart`, `paragraphEnd`: one tag becomes one mark.

The content of an element is what stands between its opening tag and the first closing tag behind it.
-/

namespace ApiReference.Html

open Text (Rule trimStart afterFolded? past? upTo?)

/-! ## Code -/

/-- The text behind the end of a code block: `</code>` and `</pre>`, each with white space in front. -/
def codeBlockEnd? (s : Text) : Option Text :=
  (afterFolded? "</code>".toList (trimStart s)).bind fun s => afterFolded? "</pre>".toList (trimStart s)

theorem length_codeBlockEnd {s rest : Text} (h : codeBlockEnd? s = some rest) : rest.length ≤ s.length := by
  obtain ⟨s₁, h₁, h₂⟩ := Option.bind_eq_some_iff.1 h
  have := Text.length_afterFolded h₁
  have := Text.length_afterFolded h₂
  have := Text.length_trimStart_le s
  have := Text.length_trimStart_le s₁
  omega

/-- The content of the code block a text begins with, without white space at its end, and what is behind. -/
def codeBlock? (s : Text) : Option (Text × Text) := do
  let s ← afterFolded? "<pre>".toList s
  let s ← afterFolded? "<code".toList (trimStart s)
  let s ← past? '>' s
  upTo? codeBlockEnd? s

/-- A code block becomes a fenced block with an empty line on either side. -/
def codeBlock : Rule where
  atFront? s := (codeBlock? s).map fun (code, rest) => ("\n\n```\n".toList ++ code ++ "\n```\n\n".toList, rest)
  shorter h := by
    simp only [codeBlock?, Option.map_eq_some_iff, Option.bind_eq_bind, Option.bind_eq_some_iff, Prod.mk.injEq] at h
    obtain ⟨⟨code, r⟩, ⟨s₁, h₁, s₂, h₂, s₃, h₃, h₄⟩, -, rfl⟩ := h
    have := Text.length_afterFolded h₁
    have := Text.length_trimStart_le s₁
    have := Text.length_afterFolded h₂
    have := Text.length_past_lt h₃
    have := Text.length_upTo length_codeBlockEnd h₄
    simp only at *
    omega

/-- The content of the code span a text begins with, and what is behind. -/
def codeSpan? (s : Text) : Option (Text × Text) := do
  let s ← afterFolded? "<code".toList s
  let s ← past? '>' s
  upTo? (afterFolded? "</code>".toList) s

theorem length_closing {tag s rest : Text} (h : afterFolded? tag s = some rest) : rest.length ≤ s.length := by
  have := Text.length_afterFolded h
  omega

/-- A code span becomes its content between backticks. -/
def codeSpan : Rule where
  atFront? s := (codeSpan? s).map fun (code, rest) => ('`' :: code ++ ['`'], rest)
  shorter h := by
    simp only [codeSpan?, Option.map_eq_some_iff, Option.bind_eq_bind, Option.bind_eq_some_iff, Prod.mk.injEq] at h
    obtain ⟨⟨code, r⟩, ⟨s₁, h₁, s₂, h₂, h₃⟩, -, rfl⟩ := h
    have := Text.length_afterFolded h₁
    have := Text.length_past_lt h₂
    have := Text.length_upTo length_closing h₃
    simp only at *
    omega

/-! ## Links -/

/-- A link: where it leads, its content, and the text behind it. -/
structure Anchor where
  /-- Where the link leads. -/
  target : Text
  /-- The content of the link. -/
  label : Text
  /-- The text behind the link. -/
  rest : Text

/-- The link whose attribute `href` a text begins with: a quoted value, the rest of the opening tag, the content up
to the first `</a>`. -/
def anchorAtHref? (s : Text) : Option Anchor := do
  let s ← afterFolded? "href".toList s
  let s ← Text.after? ['='] (trimStart s)
  let s ← Text.after? ['"'] (trimStart s)
  let target := s.takeWhile (· ≠ '"')
  let s ← past? '"' s
  let s ← past? '>' s
  let (label, rest) ← upTo? (afterFolded? "</a>".toList) s
  some ⟨target, label, rest⟩

/-- The link whose attribute `href` stands first among those that make one, all of them in front of the next `>`. -/
def anchorInTag? : Text → Option Anchor
  | [] => none
  | c :: s =>
    match anchorAtHref? (c :: s) with
    | some a => some a
    | none => if c = '>' then none else anchorInTag? s

theorem length_anchorAtHref {s : Text} {a : Anchor} (h : anchorAtHref? s = some a) : a.rest.length < s.length := by
  simp only [anchorAtHref?, Option.bind_eq_bind, Option.bind_eq_some_iff, Option.some.injEq] at h
  obtain ⟨s₁, h₁, s₂, h₂, s₃, h₃, s₄, h₄, s₅, h₅, ⟨label, rest⟩, h₆, rfl⟩ := h
  have := Text.length_afterFolded h₁
  have := Text.length_trimStart_le s₁
  have := Text.length_after h₂
  have := Text.length_trimStart_le s₂
  have := Text.length_after h₃
  have := Text.length_past_lt h₄
  have := Text.length_past_lt h₅
  have := Text.length_upTo length_closing h₆
  simp only at *
  omega

theorem length_anchorInTag {a : Anchor} : ∀ {s : Text}, anchorInTag? s = some a → a.rest.length < s.length
  | [], h => by simp [anchorInTag?] at h
  | c :: s, h => by
    simp only [anchorInTag?] at h
    split at h
    · rename_i b hb
      obtain rfl : b = a := by simpa using h
      exact length_anchorAtHref hb
    · split at h
      · simp at h
      · have := length_anchorInTag h
        simp only [List.length_cons]
        omega

/-- The link a text begins with: `<a`, white space, and an attribute `href`. -/
def anchor? (s : Text) : Option Anchor := do
  match ← afterFolded? "<a".toList s with
  | [] => none
  | c :: s => if Text.isWhiteSpace c then anchorInTag? s else none

/-- A link becomes its content in brackets and where it leads in parentheses. -/
def link : Rule where
  atFront? s := (anchor? s).map fun a => ('[' :: a.label ++ "](".toList ++ a.target ++ [')'], a.rest)
  shorter h := by
    simp only [anchor?, Option.map_eq_some_iff, Option.bind_eq_bind, Option.bind_eq_some_iff, Prod.mk.injEq] at h
    obtain ⟨a, ⟨s₁, h₁, h₂⟩, -, rfl⟩ := h
    have := Text.length_afterFolded h₁
    match s₁, h₂ with
    | [], h₂ => simp at h₂
    | c :: s₂, h₂ =>
      simp only at h₂
      split at h₂
      · have := length_anchorInTag h₂
        simp only [List.length_cons] at *
        omega
      · simp at h₂

/-! ## Single tags -/

/-- The tags of strong text become two stars. -/
def strong : Rule :=
  .spellings ["<strong>".toList, "</strong>".toList, "<b>".toList, "</b>".toList] "**".toList (by decide)

/-- The tags of emphasis become an underscore. -/
def emphasis : Rule :=
  .spellings ["<em>".toList, "</em>".toList, "<i>".toList, "</i>".toList] "_".toList (by decide)

/-- The text behind a line break: `<br`, white space, a slash or none, and `>`. -/
def lineBreak? (s : Text) : Option Text := do
  let s := trimStart (← afterFolded? "<br".toList s)
  Text.after? ['>'] ((Text.after? ['/'] s).getD s)

/-- A line break becomes a newline. -/
def lineBreak : Rule where
  atFront? s := (lineBreak? s).map ("\n".toList, ·)
  shorter h := by
    simp only [lineBreak?, Option.map_eq_some_iff, Option.bind_eq_bind, Option.bind_eq_some_iff, Prod.mk.injEq] at h
    obtain ⟨r, ⟨s₁, h₁, h₂⟩, -, rfl⟩ := h
    have := Text.length_afterFolded h₁
    have := Text.length_trimStart_le s₁
    have := Text.length_after h₂
    cases hs : Text.after? ['/'] (trimStart s₁) with
    | none => simp_all; omega
    | some s₂ =>
      have := Text.length_after hs
      simp_all
      omega

/-- The start of a paragraph becomes nothing. -/
def paragraphStart : Rule :=
  .spellings ["<p>".toList] [] (by decide)

/-- The end of a paragraph becomes an empty line. -/
def paragraphEnd : Rule :=
  .spellings ["</p>".toList] "\n\n".toList (by decide)

end ApiReference.Html
