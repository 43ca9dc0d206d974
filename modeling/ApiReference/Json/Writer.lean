import ApiReference.Json.Basic

/-!
# Writing JSON

`Json.write` writes a value without blanks. A character of a string is escaped where it must be: the quote, the
backslash and the control characters. A string that is no text is written as half a surrogate pair.
-/

namespace ApiReference.Json

/-! ## Strings -/

/-- A character between the quotes of a string. -/
def quoteChar (c : Char) : Text :=
  if c = '"' ∨ c = '\\' then ['\\', c]
  else if c < ' ' then "\\u00".toList ++ [Nat.digitChar (c.toNat / 16), Nat.digitChar (c.toNat % 16)]
  else [c]

/-- A string between quotes. -/
def writeStr : Str → Text
  | some s => '"' :: s.flatMap quoteChar ++ ['"']
  | none => "\"\\ud800\"".toList

/-! ## Numbers -/

/-- A point and the digits behind it, or nothing if there are none. -/
def writeFraction (ds : List (Fin 10)) : Text :=
  if ds.isEmpty then [] else '.' :: ds.map fun d => Nat.digitChar d.val

/-- A power of ten, or nothing if it is zero. -/
def writeExponent : Int → Text
  | .ofNat 0 => []
  | .ofNat n => 'e' :: Nat.toDigits 10 n
  | .negSucc n => 'e' :: '-' :: Nat.toDigits 10 (n + 1)

/-- A number. -/
def Number.write (x : Number) : Text :=
  (if x.negative then ['-'] else []) ++ Nat.toDigits 10 x.whole ++ writeFraction x.fraction ++
    writeExponent x.exponent

/-! ## Values -/

mutual

/-- A value. -/
def write : Json → Text
  | .null => "null".toList
  | .bool true => "true".toList
  | .bool false => "false".toList
  | .num x => x.write
  | .str s => writeStr s
  | .arr [] => "[]".toList
  | .arr (v :: items) => '[' :: write v ++ writeItems items
  | .obj [] => ['\x7b', '\x7d']
  | .obj ((key, v) :: members) => '\x7b' :: writeStr key ++ ':' :: write v ++ writeMembers members

/-- The items behind the first one, and the end of the array. -/
def writeItems : List Json → Text
  | [] => [']']
  | v :: items => ',' :: write v ++ writeItems items

/-- The members behind the first one, and the end of the object. -/
def writeMembers : List (Str × Json) → Text
  | [] => ['\x7d']
  | (key, v) :: members => ',' :: writeStr key ++ ':' :: write v ++ writeMembers members

end

end ApiReference.Json
