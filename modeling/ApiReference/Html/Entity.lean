import ApiReference.Text.Rule

/-!
# Character entities

The five entities that stand for the characters with a meaning in HTML.

- `decode` replaces one entity after another in the whole text and `&amp;` last, so that `&amp;lt;` is the text `&lt;`
  and not `<`;
- `decodeOnce` replaces every entity where it stands, in one pass over the text;
- `escape` writes the entity for each of the five characters.
-/

namespace ApiReference.Html.Entity

open Text (Rule)

/-- `&lt;` stands for `<`. -/
def less : Rule :=
  .literal "&lt;".toList ['<'] (by decide)

/-- `&gt;` stands for `>`. -/
def greater : Rule :=
  .literal "&gt;".toList ['>'] (by decide)

/-- `&quot;` stands for a double quote. -/
def doubleQuote : Rule :=
  .literal "&quot;".toList ['"'] (by decide)

/-- `&#39;` stands for an apostrophe. -/
def apostrophe : Rule :=
  .literal "&#39;".toList ['\''] (by decide)

/-- `&amp;` stands for `&`. -/
def ampersand : Rule :=
  .literal "&amp;".toList ['&'] (by decide)

/-- The text with every entity replaced by its character, `&amp;` after all others. -/
def decode (s : Text) : Text :=
  ampersand.rewrite (apostrophe.rewrite (doubleQuote.rewrite (greater.rewrite (less.rewrite s))))

/-! ## One pass -/

/-- The entities and their characters. -/
def table : List (Text × Char) :=
  [("&lt;".toList, '<'), ("&gt;".toList, '>'), ("&quot;".toList, '"'), ("&#39;".toList, '\''), ("&amp;".toList, '&')]

/-- The character of the entity a text begins with, and the text behind it. -/
def character? (s : Text) : Option (Char × Text) :=
  table.findSome? fun (entity, c) => (Text.after? entity s).map (c, ·)

/-- Any entity becomes its character. -/
def any : Rule where
  atFront? s := (character? s).map fun (c, rest) => ([c], rest)
  shorter h := by
    simp only [Option.map_eq_some_iff, Prod.mk.injEq] at h
    obtain ⟨⟨c, r⟩, hr, -, rfl⟩ := h
    obtain ⟨⟨entity, d⟩, hmem, h⟩ := List.exists_of_findSome?_eq_some hr
    simp only [Option.map_eq_some_iff, Prod.mk.injEq] at h
    obtain ⟨r', h, -, rfl⟩ := h
    have := Text.length_after h
    have pos : ∀ p ∈ table, 0 < p.1.length := by decide
    have := pos _ hmem
    simp only at *
    omega

/-- The text with every entity replaced by its character where it stands. -/
def decodeOnce (s : Text) : Text :=
  any.rewrite s

/-! ## Escaping -/

/-- The entity of a character, or the character if it has none. -/
def escapeChar (c : Char) : Text :=
  match table.find? (·.2 = c) with
  | some (entity, _) => entity
  | none => [c]

/-- The text with an entity for each of the five characters. -/
def escape (s : Text) : Text :=
  s.flatMap escapeChar

end ApiReference.Html.Entity
