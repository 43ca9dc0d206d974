import ApiReference.Json.Quoted
import ApiReference.Json.Writer

/-!
# Spellings of a string

A character of a JSON string may be spelled in several ways: as itself, by a short escape, by its code unit, or by a
surrogate pair, with hexadecimal digits in small or capital letters (`CharSpelling`). The spellings of a string
(`StrSpelling`) are spellings of its characters, one after another; a string that is no text ends with half a pair.

- `string_append`: every spelling of a string is read as the string;
- `strSpelling_writeStr`: what `writeStr` writes is one of the spellings.
-/

namespace ApiReference.Json

/-! ## Spellings -/

/-- A hexadecimal digit in either case. -/
def IsHexDigit (c : Char) (d : Nat) : Prop :=
  d < 16 ∧ (c = Nat.digitChar d ∨ c = (Nat.digitChar d).toUpper)

/-- The four hexadecimal digits of a code unit. -/
inductive UnitSpelling : Nat → Text → Prop
  | mk {w x y z : Char} {a b c d : Nat} (hw : IsHexDigit w a) (hx : IsHexDigit x b) (hy : IsHexDigit y c)
      (hz : IsHexDigit z d) : UnitSpelling (a * 0x1000 + b * 0x100 + c * 0x10 + d) [w, x, y, z]

/-- The letters behind the backslash of a short escape, with the characters they stand for. -/
def shortEscapes : List (Char × Char) :=
  [('"', '"'), ('\\', '\\'), ('/', '/'), ('b', '\x08'), ('f', '\x0C'), ('n', '\n'), ('r', '\r'), ('t', '\t')]

/-- The spellings of a character between quotes. -/
inductive CharSpelling (c : Char) : Text → Prop
  | /-- As itself, unless it is a control character, a quote or a backslash. -/
    plain (hc : 0x20 ≤ c.toNat) (hquote : c ≠ '"') (hslash : c ≠ '\\') : CharSpelling c [c]
  | /-- By a short escape. -/
    short {e : Char} (he : (e, c) ∈ shortEscapes) : CharSpelling c ['\\', e]
  | /-- By its code unit. -/
    unit {s : Text} (hs : UnitSpelling c.toNat s) : CharSpelling c ('\\' :: 'u' :: s)
  | /-- By a surrogate pair. -/
    pair {h l : Nat} {s t : Text} (hh : h < 0x400) (hl : l < 0x400) (hc : c.toNat = 0x10000 + h * 0x400 + l)
      (hs : UnitSpelling (0xD800 + h) s) (ht : UnitSpelling (0xDC00 + l) t) :
      CharSpelling c ('\\' :: 'u' :: s ++ '\\' :: 'u' :: t)

/-- The spellings of a string between its quotes. -/
inductive StrSpelling : Str → Text → Prop
  | /-- Nothing for the empty text. -/
    nil : StrSpelling (some []) []
  | /-- A first character and the others. -/
    cons {c : Char} {v : Str} {s t : Text} (hc : CharSpelling c s) (hv : StrSpelling v t) :
      StrSpelling (v.map (c :: ·)) (s ++ t)
  | /-- Half a surrogate pair at the end. -/
    half {n : Nat} {s : Text} (hn : 0xD800 ≤ n ∧ n < 0xE000) (hs : UnitSpelling n s) :
      StrSpelling none ('\\' :: 'u' :: s)

/-! ## Code units -/

theorem hexDigit_of_isHexDigit {c : Char} {d : Nat} (h : IsHexDigit c d) : hexDigit? c = some d := by
  obtain ⟨hd, h⟩ := h
  have hall : ∀ d : Fin 16, hexDigit? (Nat.digitChar d) = some d.val ∧
      hexDigit? (Nat.digitChar d).toUpper = some d.val := by decide
  rcases h with rfl | rfl
  · exact (hall ⟨d, hd⟩).1
  · exact (hall ⟨d, hd⟩).2

/-- A code unit is read behind `\u` as the piece it stands for. -/
theorem pieces_unit {n : Nat} {s : Text} (h : UnitSpelling n s) (rest : Text) :
    pieces? ('\\' :: 'u' :: (s ++ rest)) = (pieces? rest).map fun (ps, r) => (Piece.ofUnit n :: ps, r) := by
  obtain ⟨hw, hx, hy, hz⟩ := h
  rename_i w x y z a b c d
  have hn : ((a * 16 + b) * 16 + c) * 16 + d = a * 0x1000 + b * 0x100 + c * 0x10 + d := by omega
  have hunit : unit? w x y z = some (a * 0x1000 + b * 0x100 + c * 0x10 + d) := by
    simp [unit?, hexDigit_of_isHexDigit hw, hexDigit_of_isHexDigit hx, hexDigit_of_isHexDigit hy,
      hexDigit_of_isHexDigit hz, hn]
  show pieces? ('\\' :: 'u' :: w :: x :: y :: z :: rest) = _
  rw [pieces?, hunit]
  cases pieces? rest <;> rfl

/-- The code unit of a character that needs only one. -/
theorem ofUnit_toNat (c : Char) : Piece.ofUnit c.toNat = .char c := by
  have hv : c.toNat < 0xD800 ∨ 0xDFFF < c.toNat ∧ c.toNat < 0x110000 := c.valid
  have h₁ : ¬ (0xD800 ≤ c.toNat ∧ c.toNat < 0xDC00) := by omega
  have h₂ : ¬ (0xDC00 ≤ c.toNat ∧ c.toNat < 0xE000) := by omega
  rw [Piece.ofUnit, if_neg h₁, if_neg h₂, Char.ofNat_toNat]

theorem ofUnit_high {h : Nat} (hh : h < 0x400) : Piece.ofUnit (0xD800 + h) = .high h := by
  rw [Piece.ofUnit, if_pos (by omega), Nat.add_sub_cancel_left]

theorem ofUnit_low {l : Nat} (hl : l < 0x400) : Piece.ofUnit (0xDC00 + l) = .low l := by
  rw [Piece.ofUnit, if_neg (by omega), if_pos (by omega), Nat.add_sub_cancel_left]

/-! ## Strings -/

/-- A spelling of a character is read as pieces that join to the character. -/
theorem pieces_char {c : Char} {s : Text} (h : CharSpelling c s) :
    ∃ ps, (∀ rest, pieces? (s ++ rest) = (pieces? rest).map fun (qs, r) => (ps ++ qs, r)) ∧
      ∀ qs, join (ps ++ qs) = (join qs).map (c :: ·) := by
  cases h with
  | plain hc hquote hslash =>
    have hc' : ' ' ≤ c := hc
    refine ⟨[.char c], fun rest => ?_, fun qs => rfl⟩
    have he : pieces? (c :: rest) = (pieces? rest).map fun (qs, r) => (.char c :: qs, r) := by
      rw [pieces?, if_pos ⟨hc', hslash⟩]
      all_goals simp_all
    exact he
  | short he =>
    refine ⟨[.char c], fun rest => ?_, fun qs => rfl⟩
    rename_i e
    have hesc : escaped? e = some c ∧ e ≠ 'u' := by
      have hall : ∀ p ∈ shortEscapes, escaped? p.1 = some p.2 ∧ p.1 ≠ 'u' := by decide
      exact hall _ he
    show pieces? ('\\' :: e :: rest) = _
    rw [pieces?, hesc.1]
    · cases pieces? rest <;> rfl
    · intro a b c d s hu
      exact absurd hu hesc.2
  | unit hs =>
    refine ⟨[.char c], fun rest => ?_, fun qs => rfl⟩
    rw [← ofUnit_toNat c]
    exact pieces_unit hs rest
  | pair hh hl hc hs ht =>
    rename_i h l s t
    -- each half is a piece of its own, and joining puts them together
    refine ⟨[.high h, .low l], fun rest => ?_, fun qs => ?_⟩
    · have hhigh := pieces_unit hs ('\\' :: 'u' :: (t ++ rest))
      have hlow := pieces_unit ht rest
      rw [ofUnit_high hh] at hhigh
      rw [ofUnit_low hl] at hlow
      rw [hlow, Option.map_map] at hhigh
      simpa [Function.comp_def] using hhigh
    · have hcode : Char.ofNat (0x10000 + h * 0x400 + l) = c := by rw [← hc, Char.ofNat_toNat]
      show join (.high h :: .low l :: qs) = _
      rw [join, hcode]

/-- Every spelling of a string is read as the string. -/
theorem string_append {v : Str} {s : Text} (h : StrSpelling v s) (rest : Text) :
    string? (s ++ '"' :: rest) = some (v, rest) := by
  have hpieces : ∃ ps, pieces? (s ++ '"' :: rest) = some (ps, rest) ∧ join ps = v := by
    induction h with
    | nil => exact ⟨[], by rw [List.nil_append, pieces?], rfl⟩
    | cons hc _ ih =>
      obtain ⟨ps, hps, hjoin⟩ := ih
      obtain ⟨qs, hqs, hchar⟩ := pieces_char hc
      refine ⟨qs ++ ps, ?_, ?_⟩
      · rw [List.append_assoc, hqs, hps]
        rfl
      · rw [hchar, hjoin]
    | half hn hs =>
      rename_i n s
      refine ⟨[Piece.ofUnit n], ?_, ?_⟩
      · have := pieces_unit hs ('"' :: rest)
        rw [pieces?] at this
        exact this
      · unfold Piece.ofUnit
        split
        · rfl
        · rw [if_pos (by omega)]
          rfl
  obtain ⟨ps, hps, hjoin⟩ := hpieces
  rw [string?, hps, ← hjoin]
  rfl

/-! ## The writer -/

theorem isHexDigit_digitChar {d : Nat} (h : d < 16) : IsHexDigit (Nat.digitChar d) d :=
  ⟨h, .inl rfl⟩

/-- A character is escaped to one of its spellings. -/
theorem charSpelling_quoteChar (c : Char) : CharSpelling c (quoteChar c) := by
  unfold quoteChar
  split
  · rename_i h
    rcases h with rfl | rfl
    · exact .short (by decide)
    · exact .short (by decide)
  · rename_i hquote
    rw [not_or] at hquote
    split
    · rename_i hc
      have hlt : c.toNat < 0x20 := hc
      have hn : c.toNat = 0 * 0x1000 + 0 * 0x100 + c.toNat / 16 * 0x10 + c.toNat % 16 := by omega
      refine .unit ?_
      rw [hn]
      exact .mk (isHexDigit_digitChar (by decide)) (isHexDigit_digitChar (by decide))
        (by rw [← hn]; exact isHexDigit_digitChar (by omega)) (by rw [← hn]; exact isHexDigit_digitChar (by omega))
    · rename_i hc
      have hle : 0x20 ≤ c.toNat := Nat.le_of_not_lt hc
      exact .plain hle hquote.1 hquote.2

theorem strSpelling_flatMap (s : Text) : StrSpelling (some s) (s.flatMap quoteChar) := by
  induction s with
  | nil => exact .nil
  | cons c s ih =>
    rw [List.flatMap_cons]
    exact .cons (charSpelling_quoteChar c) ih

/-- What `writeStr` writes is a spelling of the string between quotes. -/
theorem strSpelling_writeStr (v : Str) : ∃ s, writeStr v = '"' :: (s ++ ['"']) ∧ StrSpelling v s := by
  cases v with
  | some s => exact ⟨_, rfl, strSpelling_flatMap s⟩
  | none =>
    refine ⟨"\\ud800".toList, rfl, .half (n := 0xD800) (by decide) ?_⟩
    exact .mk (isHexDigit_digitChar (d := 13) (by decide)) (isHexDigit_digitChar (d := 8) (by decide))
      (isHexDigit_digitChar (d := 0) (by decide)) (isHexDigit_digitChar (d := 0) (by decide))

end ApiReference.Json
