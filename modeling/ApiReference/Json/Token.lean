import ApiReference.Json.Quoted
import ApiReference.Text.Scan

/-!
# Tokens of a JSON document

A document is a sequence of tokens with blanks between them (`tokens?`). No two tokens that could run into each other
may stand side by side in a document, so a reader of the tokens refuses `1 2` and `12x` alike.
-/

namespace ApiReference.Json

/-- A token: a bracket, a mark of punctuation, or a value without parts. -/
inductive Token
  | beginArray
  | endArray
  | beginObject
  | endObject
  | comma
  | colon
  | null
  | bool (value : Bool)
  | num (value : Number)
  | str (value : Str)

/-! ## Numbers -/

/-- The value of a decimal digit. -/
def digit? (c : Char) : Option (Fin 10) :=
  if h : '0'.toNat ≤ c.toNat ∧ c.toNat < '0'.toNat + 10 then some ⟨c.toNat - '0'.toNat, by omega⟩ else none

/-- The digits a text begins with, and the text behind them. -/
def digits : Text → List (Fin 10) × Text
  | [] => ([], [])
  | c :: s =>
    match digit? c with
    | some d => (d :: (digits s).1, (digits s).2)
    | none => ([], c :: s)

/-- The digits a text begins with, at least one, and the text behind them. -/
def someDigits? (s : Text) : Option (List (Fin 10) × Text) :=
  if (digits s).1.isEmpty then none else some (digits s)

/-- The number that a list of digits writes. -/
def ofDigits (ds : List (Fin 10)) : Nat :=
  ds.foldl (fun n (d : Fin 10) => n * 10 + d.val) 0

/-- A minus sign or none, and the text behind it. -/
def minus : Text → Bool × Text
  | '-' :: s => (true, s)
  | s => (false, s)

/-- A whole part: `0` alone, or digits that do not begin with it. -/
def whole? : Text → Option (Nat × Text)
  | '0' :: s => some (0, s)
  | s => (someDigits? s).map fun (ds, rest) => (ofDigits ds, rest)

/-- A point and the digits behind it, or nothing. -/
def fraction? : Text → Option (List (Fin 10) × Text)
  | '.' :: s => someDigits? s
  | s => some ([], s)

/-- The digits of a power of ten, with a sign or without. -/
def power? : Text → Option (Int × Text)
  | '-' :: s => (someDigits? s).map fun (ds, rest) => (-(ofDigits ds : Int), rest)
  | '+' :: s => (someDigits? s).map fun (ds, rest) => ((ofDigits ds : Int), rest)
  | s => (someDigits? s).map fun (ds, rest) => ((ofDigits ds : Int), rest)

/-- An `e` and the power of ten behind it, or nothing. -/
def exponent? : Text → Option (Int × Text)
  | 'e' :: s => power? s
  | 'E' :: s => power? s
  | s => some (0, s)

/-- A number, and the text behind it. -/
def number? (s : Text) : Option (Number × Text) := do
  let (negative, s) := minus s
  let (whole, s) ← whole? s
  let (fraction, s) ← fraction? s
  let (exponent, s) ← exponent? s
  some (⟨negative, whole, fraction, exponent⟩, s)

/-! ## Tokens -/

/-- The blanks of a document. -/
def isBlank (c : Char) : Bool :=
  c = ' ' || c = '\t' || c = '\n' || c = '\r'

/-- The token a text begins with, and the text behind it. -/
def token? : Text → Option (Token × Text)
  | '[' :: s => some (.beginArray, s)
  | ']' :: s => some (.endArray, s)
  | '\x7b' :: s => some (.beginObject, s)
  | '\x7d' :: s => some (.endObject, s)
  | ',' :: s => some (.comma, s)
  | ':' :: s => some (.colon, s)
  | '"' :: s => (string? s).map fun (v, rest) => (.str v, rest)
  | 'n' :: s => (Text.after? "ull".toList s).map (.null, ·)
  | 't' :: s => (Text.after? "rue".toList s).map (.bool true, ·)
  | 'f' :: s => (Text.after? "alse".toList s).map (.bool false, ·)
  | s => (number? s).map fun (x, rest) => (.num x, rest)

theorem length_digits_le : ∀ s : Text, (digits s).2.length ≤ s.length
  | [] => by simp [digits]
  | c :: s => by
    have := length_digits_le s
    simp only [digits]
    split <;> simp only [List.length_cons] at * <;> omega

theorem length_someDigits_lt {s rest : Text} {ds : List (Fin 10)} (h : someDigits? s = some (ds, rest)) :
    rest.length < s.length := by
  simp only [someDigits?] at h
  split at h
  · simp at h
  · rename_i hne
    obtain ⟨rfl, rfl⟩ : (digits s).1 = ds ∧ (digits s).2 = rest := by simpa [Prod.ext_iff] using h
    match s, hne with
    | [], hne => simp [digits] at hne
    | c :: s, hne =>
      have := length_digits_le s
      cases hd : digit? c with
      | none => simp [digits, hd] at hne
      | some d =>
        simp only [digits, hd, List.length_cons]
        omega

theorem length_minus_le (s : Text) : (minus s).2.length ≤ s.length := by
  fun_cases minus s <;> simp

theorem length_whole_lt {s rest : Text} {n : Nat} (h : whole? s = some (n, rest)) : rest.length < s.length := by
  fun_cases whole? s with
  | case1 s => simp_all [whole?]
  | case2 =>
    simp_all only [whole?, Option.map_eq_some_iff, Prod.mk.injEq]
    obtain ⟨⟨ds, r⟩, h', -, rfl⟩ := h
    exact length_someDigits_lt h'

theorem length_fraction_le {s rest : Text} {ds : List (Fin 10)} (h : fraction? s = some (ds, rest)) :
    rest.length ≤ s.length := by
  fun_cases fraction? s with
  | case1 s =>
    have := length_someDigits_lt (by simpa [fraction?] using h)
    simp only [List.length_cons]
    omega
  | case2 => simp_all [fraction?]

theorem length_power_lt {s rest : Text} {n : Int} (h : power? s = some (n, rest)) : rest.length < s.length := by
  fun_cases power? s <;> simp_all only [power?, Option.map_eq_some_iff, Prod.mk.injEq]
  all_goals
    obtain ⟨⟨ds, r⟩, h', -, rfl⟩ := h
    have := length_someDigits_lt h'
    simp only [List.length_cons] at *
    omega

theorem length_exponent_le {s rest : Text} {n : Int} (h : exponent? s = some (n, rest)) :
    rest.length ≤ s.length := by
  fun_cases exponent? s with
  | case1 s =>
    have := length_power_lt (by simpa [exponent?] using h)
    simp only [List.length_cons]
    omega
  | case2 s =>
    have := length_power_lt (by simpa [exponent?] using h)
    simp only [List.length_cons]
    omega
  | case3 => simp_all [exponent?]

theorem length_number_lt {s rest : Text} {x : Number} (h : number? s = some (x, rest)) :
    rest.length < s.length := by
  simp only [number?, Option.bind_eq_bind, Option.bind_eq_some_iff, Option.some.injEq, Prod.mk.injEq] at h
  obtain ⟨⟨n, s₁⟩, h₁, ⟨ds, s₂⟩, h₂, ⟨e, s₃⟩, h₃, -, rfl⟩ := h
  have := length_minus_le s
  have := length_whole_lt h₁
  have := length_fraction_le h₂
  have := length_exponent_le h₃
  simp only at *
  omega

theorem length_token_lt {s rest : Text} {t : Token} (h : token? s = some (t, rest)) : rest.length < s.length := by
  have word {spelling s rest : Text} (h : Text.after? spelling s = some rest) : rest.length < s.length + 1 := by
    have := Text.length_after h
    omega
  have string {s rest : Text} {v : Str} (h : string? s = some (v, rest)) : rest.length < s.length + 1 :=
    Nat.lt_succ_of_lt (length_string_lt h)
  fun_cases token? s <;> simp_all only [token?, Option.map_eq_some_iff, Option.some.injEq, Prod.mk.injEq]
  case case7 s => obtain ⟨r, h, -, rfl⟩ := h; exact string h
  case case8 s => obtain ⟨r, h, -, rfl⟩ := h; exact word h
  case case9 s => obtain ⟨r, h, -, rfl⟩ := h; exact word h
  case case10 s => obtain ⟨r, h, -, rfl⟩ := h; exact word h
  case case11 => obtain ⟨r, h, -, rfl⟩ := h; exact length_number_lt h
  all_goals
    obtain ⟨-, rfl⟩ := h
    exact Nat.lt_succ_self _

/-- The tokens of a document. -/
def tokens? : Text → Option (List Token)
  | [] => some []
  | c :: s =>
    if isBlank c then tokens? s else
      match _h : token? (c :: s) with
      | some (t, rest) => (tokens? rest).map (t :: ·)
      | none => none
termination_by s => s.length
decreasing_by
  · simp
  · exact length_token_lt _h

end ApiReference.Json
