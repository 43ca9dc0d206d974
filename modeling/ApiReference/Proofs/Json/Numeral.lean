import ApiReference.Json.Token
import ApiReference.Json.Writer

/-!
# Numbers are read back

What `Number.write` writes is read as the number (`number_write`), whatever follows, unless it could go on the number
(`EndsNumber`).
-/

namespace ApiReference.Json

/-! ## Digits -/

/-- The text does not begin with a digit. -/
def EndsDigits : Text → Prop
  | [] => True
  | c :: _ => digit? c = none

/-- The text does not begin with anything that goes on a number. -/
def EndsNumber : Text → Prop
  | [] => True
  | c :: _ => digit? c = none ∧ c ≠ '.' ∧ c ≠ 'e' ∧ c ≠ 'E'

/-- The text of a list of digits. -/
def writeDigits (ds : List (Fin 10)) : Text :=
  ds.map fun d => Nat.digitChar d.val

theorem EndsNumber.endsDigits {s : Text} (h : EndsNumber s) : EndsDigits s := by
  cases s with
  | nil => exact h
  | cons c s => exact h.1

theorem digit_digitChar (d : Fin 10) : digit? (Nat.digitChar d.val) = some d := by
  revert d
  decide

theorem digits_append (ds : List (Fin 10)) {rest : Text} (h : EndsDigits rest) :
    digits (writeDigits ds ++ rest) = (ds, rest) := by
  induction ds with
  | nil =>
    cases rest with
    | nil => rfl
    | cons c s =>
      have hc : digit? c = none := h
      simp [writeDigits, digits, hc]
  | cons d ds ih =>
    show digits (Nat.digitChar d.val :: (writeDigits ds ++ rest)) = _
    simp [digits, digit_digitChar, ih]

theorem someDigits_append {ds : List (Fin 10)} (hds : ds ≠ []) {rest : Text} (h : EndsDigits rest) :
    someDigits? (writeDigits ds ++ rest) = some (ds, rest) := by
  rw [someDigits?, digits_append ds h, if_neg (by simpa using hds)]

theorem ofDigits_append (ds : List (Fin 10)) (d : Fin 10) : ofDigits (ds ++ [d]) = ofDigits ds * 10 + d.val := by
  simp [ofDigits]

/-- A natural number is written by the digits that write it, and `0` is the first of them only if it is the only
one. -/
theorem toDigits_eq (n : Nat) : ∃ d ds, Nat.toDigits 10 n = writeDigits (d :: ds) ∧ ofDigits (d :: ds) = n ∧
    (d = 0 → ds = []) := by
  induction n using Nat.strongRecOn with
  | ind n ih =>
    by_cases hn : n < 10
    · exact ⟨⟨n, hn⟩, [], Nat.toDigits_of_lt_base hn, by simp [ofDigits], fun _ => rfl⟩
    · obtain ⟨d, ds, hwrite, hof, hd⟩ := ih (n / 10) (by omega)
      refine ⟨d, ds ++ [⟨n % 10, by omega⟩], ?_, ?_, ?_⟩
      · rw [Nat.toDigits_of_base_le (by decide) (by omega), hwrite]
        simp [writeDigits]
      · rw [← List.cons_append, ofDigits_append, hof]
        exact Nat.div_add_mod' n 10
      · intro h
        -- a quotient that is written by `0` alone is zero
        rw [hd h, h] at hof
        simp [ofDigits] at hof
        omega

/-! ## The parts of a number -/

theorem whole_write (n : Nat) {rest : Text} (h : EndsDigits rest) :
    whole? (Nat.toDigits 10 n ++ rest) = some (n, rest) := by
  obtain ⟨d, ds, hwrite, hof, hd⟩ := toDigits_eq n
  rw [hwrite]
  by_cases hzero : d = 0
  · rw [hd hzero, hzero] at hof
    rw [hd hzero, hzero, ← hof]
    rfl
  · have hc : Nat.digitChar d.val ≠ '0' := fun he => hzero (Fin.ext (Nat.digitChar_eq_zero.mp he))
    have hsome := someDigits_append (List.cons_ne_nil d ds) h
    show whole? (Nat.digitChar d.val :: (writeDigits ds ++ rest)) = _
    rw [whole?]
    · rw [show Nat.digitChar d.val :: (writeDigits ds ++ rest) = writeDigits (d :: ds) ++ rest from rfl, hsome, ← hof]
      rfl
    · intro s hs
      exact hc (List.cons.inj hs).1

theorem fraction_write (ds : List (Fin 10)) {rest : Text} (h : EndsDigits rest) (hpoint : ∀ s, rest ≠ '.' :: s) :
    fraction? (writeFraction ds ++ rest) = some (ds, rest) := by
  cases ds with
  | nil =>
    cases rest with
    | nil => rfl
    | cons c s =>
      show fraction? (c :: s) = _
      rw [fraction?]
      exact fun s' he => hpoint s' he
  | cons d ds => exact someDigits_append (List.cons_ne_nil d ds) h

/-- The digits of a natural number as a power of ten. -/
theorem someDigits_toDigits (n : Nat) {rest : Text} (h : EndsDigits rest) :
    (someDigits? (Nat.toDigits 10 n ++ rest)).map (fun (ds, r) => (ofDigits ds, r)) = some (n, rest) := by
  obtain ⟨d, ds, hwrite, hof, -⟩ := toDigits_eq n
  rw [hwrite, someDigits_append (List.cons_ne_nil d ds) h, ← hof]
  rfl

/-- The digits of a natural number begin with neither sign. -/
theorem toDigits_eq_cons (n : Nat) : ∃ c s, Nat.toDigits 10 n = c :: s ∧ c ≠ '-' ∧ c ≠ '+' := by
  obtain ⟨d, ds, hwrite, -, -⟩ := toDigits_eq n
  have hall : ∀ d : Fin 10, Nat.digitChar d.val ≠ '-' ∧ Nat.digitChar d.val ≠ '+' := by decide
  exact ⟨_, _, hwrite, hall d⟩

theorem power_toDigits (n : Nat) {rest : Text} (h : EndsDigits rest) :
    power? (Nat.toDigits 10 n ++ rest) = some ((n : Int), rest) := by
  have hdigits := someDigits_toDigits n h
  obtain ⟨c, s, hs, hminus, hplus⟩ := toDigits_eq_cons n
  rw [hs, List.cons_append] at hdigits ⊢
  have hpower : power? (c :: (s ++ rest)) =
      (someDigits? (c :: (s ++ rest))).map fun (ds, r) => ((ofDigits ds : Int), r) := by
    rw [power?]
    · simp [hminus]
    · simp [hplus]
  simp only [Option.map_eq_some_iff] at hdigits
  obtain ⟨⟨ds, r⟩, hsome, hof⟩ := hdigits
  obtain ⟨rfl, rfl⟩ := Prod.mk.inj hof
  rw [hpower, hsome]
  rfl

theorem power_minus_toDigits (n : Nat) {rest : Text} (h : EndsDigits rest) :
    power? ('-' :: (Nat.toDigits 10 n ++ rest)) = some (-(n : Int), rest) := by
  have hdigits := someDigits_toDigits n h
  simp only [Option.map_eq_some_iff] at hdigits
  obtain ⟨⟨ds, r⟩, hsome, hof⟩ := hdigits
  obtain ⟨rfl, rfl⟩ := Prod.mk.inj hof
  rw [power?, hsome]
  rfl

theorem exponent_write (e : Int) {rest : Text} (h : EndsNumber rest) :
    exponent? (writeExponent e ++ rest) = some (e, rest) := by
  cases e with
  | ofNat n =>
    cases n with
    | zero =>
      cases rest with
      | nil => rfl
      | cons c s =>
        show exponent? (c :: s) = _
        rw [exponent?]
        · rfl
        · simp [h.2.2.1]
        · simp [h.2.2.2]
    | succ n => exact power_toDigits (n + 1) h.endsDigits
  | negSucc n => exact power_minus_toDigits (n + 1) h.endsDigits

/-! ## Numbers -/

theorem endsDigits_exponent (e : Int) {rest : Text} (h : EndsNumber rest) :
    EndsDigits (writeExponent e ++ rest) ∧ ∀ s, writeExponent e ++ rest ≠ '.' :: s := by
  cases e with
  | ofNat n =>
    cases n with
    | zero =>
      refine ⟨h.endsDigits, ?_⟩
      rintro s rfl
      exact h.2.1 rfl
    | succ n => exact ⟨rfl, fun s he => absurd (List.cons.inj he).1 (by decide)⟩
  | negSucc n => exact ⟨rfl, fun s he => absurd (List.cons.inj he).1 (by decide)⟩

theorem endsDigits_fraction (ds : List (Fin 10)) {rest : Text} (h : EndsDigits rest) :
    EndsDigits (writeFraction ds ++ rest) := by
  cases ds with
  | nil => exact h
  | cons d ds => exact rfl

theorem minus_toDigits (n : Nat) (rest : Text) :
    minus (Nat.toDigits 10 n ++ rest) = (false, Nat.toDigits 10 n ++ rest) := by
  obtain ⟨c, s, hs, hminus, -⟩ := toDigits_eq_cons n
  rw [hs, List.cons_append, minus]
  simp [hminus]

/-- **A number is read back**, whatever follows, unless it goes on the number. -/
theorem number_write (x : Number) {rest : Text} (h : EndsNumber rest) : number? (x.write ++ rest) = some (x, rest) := by
  obtain ⟨negative, whole, fraction, exponent⟩ := x
  have hexponent := exponent_write exponent h
  obtain ⟨hends, hpoint⟩ := endsDigits_exponent exponent h
  have hfraction := fraction_write fraction hends hpoint
  have hwhole := whole_write whole (endsDigits_fraction fraction hends)
  have hminus : minus ((if negative then ['-'] else []) ++ (Nat.toDigits 10 whole ++
      (writeFraction fraction ++ (writeExponent exponent ++ rest)))) =
      (negative, Nat.toDigits 10 whole ++ (writeFraction fraction ++ (writeExponent exponent ++ rest))) := by
    cases negative with
    | true => rfl
    | false => exact minus_toDigits whole _
  simp only [Number.write, List.append_assoc, number?, hminus, hwhole, hfraction, hexponent, Option.bind_eq_bind,
    Option.bind_some]

end ApiReference.Json
