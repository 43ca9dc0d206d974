import ApiReference.Json.Number
import ApiReference.Text.WhiteSpace

/-!
# JSON values

The tree of a JSON document. Members of an object keep their order and may repeat. A string whose escapes do not
spell out text, since a surrogate stands in it without its partner, is kept as such (`Str`): a place that reads the
string refuses it, a place that skips it does not.

`Json.settled` says that a value holds nothing that some reader has to refuse: no number beyond a double, no string
that is no text, and no more than a given number of levels of arrays and objects.
-/

namespace ApiReference

/-- A string of a JSON document: its text, or none if a surrogate stands in it without its partner. -/
abbrev Json.Str := Option Text

/-- The tree of a JSON document. -/
inductive Json
  | null
  | bool (value : Bool)
  | num (value : Json.Number)
  | str (value : Json.Str)
  | arr (items : List Json)
  | obj (members : List (Json.Str × Json))

namespace Json

/-- Whether a value has finite numbers only, strings and keys that are text, and at most `levels` levels of arrays
and objects, its own included. -/
def settled : (levels : Nat) → Json → Bool
  | _, .null => true
  | _, .bool _ => true
  | _, .num x => x.isFinite
  | _, .str s => s.isSome
  | 0, .arr _ => false
  | 0, .obj _ => false
  | levels + 1, .arr items => items.all (settled levels)
  | levels + 1, .obj members => members.all fun (key, value) => key.isSome && settled levels value

end Json

end ApiReference
