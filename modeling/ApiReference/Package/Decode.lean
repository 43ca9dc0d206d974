import ApiReference.Json.Reader
import ApiReference.Json.Record
import ApiReference.Package.Basic
import ApiReference.ParseError

/-!
# Reading the description of a package

A package and its scripts are records. A repository is a string or an object whose one field is `url`; all of it is
examined, as a tag is. What is no field is skipped.
-/

namespace ApiReference

open Json (record?)

namespace Repository

/-- The levels of arrays and objects that a repository may have, its own included. -/
def levels : Nat := 126

/-- The field of a repository. -/
def names : List Text :=
  ["url".toList]

/-- The repository that an object writes. -/
def ofMembers? (v : Json) : Option Repository := do
  let r ← record? names v
  some (.detailed (← r.optional? "url".toList Json.text?))

/-- The repository that a value writes. -/
def ofJson? (v : Json) : Option Repository := do
  guard (v.settled levels)
  match v with
  | .str (some address) => some (.shorthand address)
  | .obj members => ofMembers? (.obj members)
  | _ => none

end Repository

/-- The field of the commands of a package. -/
def Scripts.names : List Text :=
  ["test".toList]

/-- The commands that a value writes. -/
def Scripts.ofJson? (v : Json) : Option Scripts := do
  let r ← record? names v
  some { test := ← r.optional? "test".toList Json.text? }

namespace Package

/-- The fields of a package. -/
def names : List Text :=
  ["name".toList, "description".toList, "repository".toList, "scripts".toList]

/-- The package that a value writes. -/
def ofJson? (v : Json) : Option Package := do
  let r ← record? names v
  some {
    name := ← r.text? "name".toList
    description := ← r.text? "description".toList
    repository := ← r.optional? "repository".toList Repository.ofJson?
    scripts := ← r.optional? "scripts".toList Scripts.ofJson? }

/-- The package that a document describes. -/
def parse (document : Text) : Except ParseError Package :=
  match (Json.read? document).bind ofJson? with
  | some p => .ok p
  | none => .error .package

end Package

end ApiReference
