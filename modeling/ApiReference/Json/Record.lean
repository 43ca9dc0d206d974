import ApiReference.Json.Basic

/-!
# Records

A record is a value with named fields. A document may write it as an object, with the fields in any order and with
members that are no fields, or as an array, with the fields in the order of their declaration and the last ones left
out. No field may be given twice.

- `Json.record?` finds the fields that are given;
- `Record.text?`, `flag?`, `list?` and `optional?` read one field of a given type, and give the default for a field
  that is not given;
- a `Shape` is the list of the fields of a record with their types, from which `Shape.read?` reads it.
-/

namespace ApiReference.Json

/-! ## Fields -/

/-- The fields that are given, by name. -/
structure Record where
  fields : List (Text × Json)

/-- Members whose keys are all text. -/
def textKeys? (members : List (Str × Json)) : Option (List (Text × Json)) :=
  members.mapM fun (key, value) => key.map (·, value)

/-- The record that a value writes, given the names of the fields in the order of their declaration. -/
def record? (names : List Text) : Json → Option Record
  | .obj members => do
    let known := (← textKeys? members).filter (·.1 ∈ names)
    guard (known.map (·.1)).Nodup
    some ⟨known⟩
  | .arr items => do
    guard (items.length ≤ names.length)
    some ⟨names.zip items⟩
  | _ => none

namespace Record

/-- The value of a field, if it is given. -/
def get? (r : Record) (name : Text) : Option Json :=
  r.fields.lookup name

/-! ## Typed fields -/

/-- A field read by `read?`, or the default if it is not given. -/
def getD? {α : Type} (r : Record) (name : Text) (default : α) (read? : Json → Option α) : Option α :=
  match r.get? name with
  | none => some default
  | some v => read? v

end Record

/-- The text of a string. -/
def text? : Json → Option Text
  | .str s => s
  | _ => none

/-- The value of a boolean. -/
def flag? : Json → Option Bool
  | .bool b => some b
  | _ => none

/-- The items of an array, each read by `read?`. -/
def list? {α : Type} (read? : Json → Option α) : Json → Option (List α)
  | .arr items => items.mapM read?
  | _ => none

/-- No value for `null`, else the value read by `read?`. -/
def optional? {α : Type} (read? : Json → Option α) : Json → Option (Option α)
  | .null => some none
  | v => (read? v).map some

namespace Record

/-- A field of text, empty if it is not given. -/
def text? (r : Record) (name : Text) : Option Text :=
  r.getD? name [] Json.text?

/-- A boolean field, false if it is not given. -/
def flag? (r : Record) (name : Text) : Option Bool :=
  r.getD? name false Json.flag?

/-- A field that is a list, empty if it is not given. -/
def list? {α : Type} (r : Record) (name : Text) (read? : Json → Option α) : Option (List α) :=
  r.getD? name [] (Json.list? read?)

/-- A field that may be `null`, which is the same as not given. -/
def optional? {α : Type} (r : Record) (name : Text) (read? : Json → Option α) : Option (Option α) :=
  r.getD? name none (Json.optional? read?)

end Record

/-! ## Shapes -/

/-- The types that a field may have. -/
inductive FieldType
  | /-- A string. -/ text
  | /-- An array of strings. -/ texts
  | /-- A boolean. -/ flag
deriving DecidableEq

/-- What is read of a field of a type. -/
def FieldType.Value : FieldType → Type
  | .text => Text
  | .texts => List Text
  | .flag => Bool

/-- A field of a type. -/
def Record.field? (r : Record) (name : Text) : (type : FieldType) → Option type.Value
  | .text => r.text? name
  | .texts => r.list? name Json.text?
  | .flag => r.flag? name

/-- The fields of a record in the order of their declaration, each with its name and its type. -/
abbrev Shape := List (Text × FieldType)

namespace Shape

/-- The names of the fields. -/
def names (shape : Shape) : List Text :=
  shape.map (·.1)

/-- What is read of the fields one after another. -/
def Values : Shape → Type
  | [] => Unit
  | (_, type) :: shape => type.Value × Values shape

/-- The fields of a record one after another. -/
def values? (r : Record) : (shape : Shape) → Option shape.Values
  | [] => some ()
  | (name, type) :: shape => do
    let x ← r.field? name type
    let xs ← values? r shape
    some (x, xs)

/-- The fields of the record that a value writes. -/
def read? (shape : Shape) (v : Json) : Option shape.Values := do
  values? (← record? shape.names v) shape

end Shape

end ApiReference.Json
