/-!
# JSON numbers

A number of a JSON document is exact: a sign, a whole part, the digits behind the point and a power of ten. The
documents read here keep no number, but some of their places refuse one that is too large for a double.

- `Number.significand` takes the digits that fit a word of 64 bits, and the power of ten that goes with them;
- `roundDouble` rounds to 53 binary digits, a half to the even neighbour;
- `Number.isFinite` says whether the product of the two, each rounded to a double, is a finite double.
-/

namespace ApiReference.Json

/-- A JSON number: whether a minus sign stands in front, the whole part, the digits behind the point, and the power
of ten. -/
structure Number where
  negative : Bool
  whole : Nat
  fraction : List (Fin 10)
  exponent : Int
deriving DecidableEq

/-! ## The significand -/

/-- The number of values of a word. -/
def wordSize : Nat := Nat.pow 2 64

/-- The first digits of a number, as many as fit a word, and how many digits are left off. -/
def leadingWord (n : Nat) : Nat × Nat :=
  if n < wordSize then (n, 0) else
    let (m, dropped) := leadingWord (n / 10)
    (m, dropped + 1)
termination_by n
decreasing_by
  have : 0 < wordSize := Nat.pow_pos (by decide)
  omega

/-- A number with digits written behind it, as long as it fits a word, and how many digits that are. -/
def extendWord (n : Nat) : List (Fin 10) → Nat × Nat
  | [] => (n, 0)
  | d :: ds =>
    if n * 10 + d < wordSize then
      let (m, taken) := extendWord (n * 10 + d) ds
      (m, taken + 1)
    else (n, 0)

/-- The digits of a number that fit a word and the power of ten that goes with them. -/
def Number.significand (x : Number) : Nat × Int :=
  let (leading, dropped) := leadingWord x.whole
  let (digits, taken) := extendWord leading x.fraction
  (digits, x.exponent + dropped - taken)

/-! ## Doubles -/

/-- A natural number rounded to 53 binary digits, a half to the even neighbour. -/
def roundDouble (n : Nat) : Nat :=
  let unit := Nat.pow 2 (n.log2 + 1 - 53)
  let quotient := n / unit
  let remainder := n % unit
  if 2 * remainder > unit ∨ (2 * remainder = unit ∧ quotient % 2 = 1) then (quotient + 1) * unit
  else quotient * unit

/-- The largest power of ten that is a finite double. -/
def maxExponent : Int := 308

/-- The least number that is rounded to infinity. -/
def overflow : Nat := Nat.pow 2 1024 - Nat.pow 2 970

/-- Whether a number is read as a finite double: its significand and its power of ten are rounded to doubles, and
their product stays below what is rounded to infinity. A negative power of ten makes no number too large, and zero
is finite whatever its power of ten. -/
def Number.isFinite (x : Number) : Bool :=
  let (digits, exponent) := x.significand
  digits = 0 || exponent < 0 ||
    (exponent ≤ maxExponent && roundDouble digits * roundDouble (Nat.pow 10 exponent.toNat) < overflow)

end ApiReference.Json
