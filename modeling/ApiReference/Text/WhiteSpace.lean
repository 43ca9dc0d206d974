/-!
# White space

A text is the list of its characters. This file holds the Unicode property `White_Space` as a table of ranges and
what is built on it: the text without the white space at its front (`trimStart`), at its end (`trimEnd`) and at
both (`trim`). Trimming never makes a text longer (`length_trimStart_le`).
-/

namespace ApiReference

/-- A text is the list of its characters. -/
abbrev Text := List Char

namespace Text

/-! ## The property -/

/-- The code points of the Unicode property `White_Space`, as ranges with both ends included. -/
def whiteSpace : List (Nat × Nat) :=
  [(0x9, 0xD), (0x20, 0x20), (0x85, 0x85), (0xA0, 0xA0), (0x1680, 0x1680), (0x2000, 0x200A), (0x2028, 0x2029),
    (0x202F, 0x202F), (0x205F, 0x205F), (0x3000, 0x3000)]

/-- Whether a character has the Unicode property `White_Space`. -/
def isWhiteSpace (c : Char) : Bool :=
  whiteSpace.any fun (lo, hi) => lo ≤ c.toNat && c.toNat ≤ hi

/-! ## Trimming -/

/-- The text without the white space at its front. -/
def trimStart (s : Text) : Text :=
  s.dropWhile isWhiteSpace

/-- The text without the white space at its end. -/
def trimEnd (s : Text) : Text :=
  (trimStart s.reverse).reverse

/-- The text without the white space at its two ends. -/
def trim (s : Text) : Text :=
  trimEnd (trimStart s)

theorem length_trimStart_le (s : Text) : (trimStart s).length ≤ s.length :=
  (List.dropWhile_suffix _).length_le

end Text

end ApiReference
