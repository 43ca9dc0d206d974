import ApiReference.Json.Basic

/-!
# Quoted strings

The characters between the quotes of a JSON string. A code unit written by an escape is a character or one half of
a surrogate pair (`Piece`); the halves are joined when all pieces are read (`join`).

- `pieces?` reads the pieces up to the closing quote and refuses control characters and unknown escapes;
- `string?` reads a string behind its opening quote.
-/

namespace ApiReference.Json

/-! ## Pieces -/

/-- What one character or escape of a string stands for. -/
inductive Piece
  | /-- A character. -/ char (c : Char)
  | /-- The upper ten bits of a character beyond the first 65536. -/ high (bits : Nat)
  | /-- The lower ten bits of such a character. -/ low (bits : Nat)
deriving DecidableEq

/-- The piece that a code unit of 16 bits stands for. -/
def Piece.ofUnit (n : Nat) : Piece :=
  if 0xD800 ≤ n ∧ n < 0xDC00 then .high (n - 0xD800)
  else if 0xDC00 ≤ n ∧ n < 0xE000 then .low (n - 0xDC00)
  else .char (Char.ofNat n)

/-- The text of a list of pieces, unless a half stands without the other. -/
def join : List Piece → Str
  | [] => some []
  | .char c :: ps => (join ps).map (c :: ·)
  | .high h :: .low l :: ps => (join ps).map (Char.ofNat (0x10000 + h * 0x400 + l) :: ·)
  | _ => none

/-! ## Escapes -/

/-- The value of a hexadecimal digit. -/
def hexDigit? (c : Char) : Option Nat :=
  if '0' ≤ c ∧ c ≤ '9' then some (c.toNat - '0'.toNat)
  else if 'a' ≤ c ∧ c ≤ 'f' then some (c.toNat - 'a'.toNat + 10)
  else if 'A' ≤ c ∧ c ≤ 'F' then some (c.toNat - 'A'.toNat + 10)
  else none

/-- The code unit written by four hexadecimal digits. -/
def unit? (a b c d : Char) : Option Nat := do
  some ((((← hexDigit? a) * 16 + (← hexDigit? b)) * 16 + (← hexDigit? c)) * 16 + (← hexDigit? d))

/-- The character that a short escape stands for, given the letter behind the backslash. -/
def escaped? : Char → Option Char
  | '"' => some '"'
  | '\\' => some '\\'
  | '/' => some '/'
  | 'b' => some '\x08'
  | 'f' => some '\x0C'
  | 'n' => some '\n'
  | 'r' => some '\r'
  | 't' => some '\t'
  | _ => none

/-! ## Strings -/

/-- The pieces of a string up to its closing quote, and the text behind it. -/
def pieces? : Text → Option (List Piece × Text)
  | [] => none
  | '"' :: s => some ([], s)
  | '\\' :: 'u' :: a :: b :: c :: d :: s => do
    let n ← unit? a b c d
    let (ps, rest) ← pieces? s
    some (Piece.ofUnit n :: ps, rest)
  | '\\' :: e :: s => do
    let c ← escaped? e
    let (ps, rest) ← pieces? s
    some (.char c :: ps, rest)
  | c :: s =>
    if ' ' ≤ c ∧ c ≠ '\\' then (pieces? s).map fun (ps, rest) => (.char c :: ps, rest) else none

/-- A string behind its opening quote, and the text behind it. -/
def string? (s : Text) : Option (Str × Text) :=
  (pieces? s).map fun (ps, rest) => (join ps, rest)

theorem length_pieces_lt {s rest : Text} {ps : List Piece} (h : pieces? s = some (ps, rest)) :
    rest.length < s.length := by
  fun_induction pieces? s generalizing ps with
  | case1 => simp at h
  | case2 s => simp_all
  | case3 a b c d s ih =>
    simp only [Option.bind_eq_bind, Option.bind_eq_some_iff, Option.some.injEq, Prod.mk.injEq] at h
    obtain ⟨n, -, ⟨qs, r⟩, h', -, rfl⟩ := h
    have := ih h'
    simp only [List.length_cons] at *
    omega
  | case4 e s _ ih =>
    simp only [Option.bind_eq_bind, Option.bind_eq_some_iff, Option.some.injEq, Prod.mk.injEq] at h
    obtain ⟨c, -, ⟨qs, r⟩, h', -, rfl⟩ := h
    have := ih h'
    simp only [List.length_cons] at *
    omega
  | case5 c s _ _ _ _ ih =>
    simp only [Option.map_eq_some_iff, Prod.mk.injEq] at h
    obtain ⟨⟨qs, r⟩, h', -, rfl⟩ := h
    have := ih h'
    simp only [List.length_cons] at *
    omega
  | case6 => simp at h

theorem length_string_lt {s rest : Text} {v : Str} (h : string? s = some (v, rest)) : rest.length < s.length := by
  simp only [string?, Option.map_eq_some_iff, Prod.mk.injEq] at h
  obtain ⟨⟨ps, r⟩, h', -, rfl⟩ := h
  exact length_pieces_lt h'

end ApiReference.Json
