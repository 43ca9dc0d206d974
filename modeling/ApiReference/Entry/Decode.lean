import ApiReference.Entry.Basic
import ApiReference.Json.Reader
import ApiReference.Json.Record
import ApiReference.ParseError

/-!
# Reading entries

The entries of an API are the items of a JSON array. Entries, their descriptions and their subjects are records. A tag
is a record of fields that depend on its topic, which is given by the field `type` of an object or by the first item of
an array.

- the fields of each record are listed once, as its `shape` or by their `names`;
- `Tag.ofJson?` reads a tag. All of it is examined, so it holds no number beyond a double, no string that is no text
  and no more than `Tag.levels` levels;
- `Entry.ofJson?` reads an entry and skips what is no field of it;
- `Entry.parse` reads a document.
-/

namespace ApiReference

open Json (Shape record?)

/-! ## Parts of tags -/

/-- A visibility is written as text; all but `private` means published. -/
def Visibility.ofText (s : Text) : Visibility :=
  if s = "private".toList then .internal else .published

/-- The fields of a parameter or a property. -/
def FieldDoc.shape : Shape :=
  [("name".toList, .text), ("types".toList, .texts), ("typesDescription".toList, .text), ("optional".toList, .flag),
    ("description".toList, .text)]

/-- A parameter or a property with some values of its fields. -/
def FieldDoc.ofValues : shape.Values → FieldDoc
  | (name, types, typeExpr, optional, description, ()) => { name, types, typeExpr, optional, description }

/-- The fields of a returned value. -/
def ReturnDoc.shape : Shape :=
  [("types".toList, .texts), ("description".toList, .text)]

/-- A returned value with some values of its fields. -/
def ReturnDoc.ofValues : shape.Values → ReturnDoc
  | (types, description, ()) => { types, description }

/-! ## Tags -/

namespace Tag

/-- The kind of a tag and the rest of the value: an object without its one member `type`, or an array without its
first item. -/
def split? : Json → Option (Text × Json)
  | .obj members =>
    match members.partition (·.1 = some "type".toList) with
    | ([(_, .str (some kind))], rest) => some (kind, .obj rest)
    | _ => none
  | .arr (.str (some kind) :: items) => some (kind, .arr items)
  | _ => none

/-- The topics of tags that have fields, by the names of their kinds. -/
def topics : List (Text × Topic) :=
  [("api".toList, .visibility), ("alias".toList, .aliased), ("module".toList, .inModule), ("param".toList, .param),
    ("property".toList, .property), ("example".toList, .sample), ("returns".toList, .returns),
    ("return".toList, .returns)]

/-- The topic of the tags of a kind. -/
def topicOf (kind : Text) : Topic :=
  (topics.lookup kind).getD .other

/-- The fields of a tag on a topic, besides the kind. -/
def Topic.shape : Topic → Shape
  | .visibility => [("visibility".toList, .text)]
  | .aliased | .inModule | .sample => [("string".toList, .text)]
  | .param | .property => FieldDoc.shape
  | .returns => ReturnDoc.shape
  | .other => []

/-- The tag on a topic with some values of its fields. -/
def ofValues : (topic : Topic) → topic.shape.Values → Tag
  | .visibility, (s, ()) => .api (.ofText s)
  | .aliased, (name, ()) => .aliased name
  | .inModule, (path, ()) => .inModule path
  | .param, xs => .param (.ofValues xs)
  | .property, xs => .property (.ofValues xs)
  | .sample, (code, ()) => .sample code
  | .returns, xs => .returns (.ofValues xs)
  | .other, () => .other

/-- A tag of a given kind. An object may have any members besides its fields, an array no further items. -/
def ofKind? (kind : Text) (fields : Json) : Option Tag :=
  ((topicOf kind).shape.read? fields).map (ofValues (topicOf kind))

/-- The levels of arrays and objects that a tag may have, its own included. -/
def levels : Nat := 124

/-- The tag that a value writes. -/
def ofJson? (v : Json) : Option Tag := do
  guard (v.settled levels)
  let (kind, fields) ← split? v
  ofKind? kind fields

end Tag

/-! ## Entries -/

/-- The fields of the text of a comment. -/
def Description.shape : Shape :=
  [("full".toList, .text), ("summary".toList, .text), ("body".toList, .text)]

/-- The text of a comment with some values of its fields. -/
def Description.ofValues : shape.Values → Description
  | (full, summary, body, ()) => { full, summary, body }

/-- The text of a comment. -/
def Description.ofJson? (v : Json) : Option Description :=
  (shape.read? v).map ofValues

/-- The fields of what the line behind a comment declares. -/
def Subject.shape : Shape :=
  [("type".toList, .text), ("name".toList, .text)]

/-- What the line behind a comment declares with some values of its fields. -/
def Subject.ofValues : shape.Values → Subject
  | (kind, name, ()) => { kind, name }

/-- What the line behind a comment declares. -/
def Subject.ofJson? (v : Json) : Option Subject :=
  (shape.read? v).map ofValues

namespace Entry

/-- The fields of an entry. -/
def names : List Text :=
  ["tags".toList, "description".toList, "ctx".toList]

/-- The entry that a value writes. -/
def ofJson? (v : Json) : Option Entry := do
  let r ← record? names v
  some {
    tags := ← r.list? "tags".toList Tag.ofJson?
    description := ← r.optional? "description".toList Description.ofJson?
    subject := ← r.optional? "ctx".toList Subject.ofJson? }

/-- The entries that a value writes. -/
def listOfJson? (v : Json) : Option (List Entry) :=
  Json.list? ofJson? v

/-- The entries of a document. -/
def parse (document : Text) : Except ParseError (List Entry) :=
  match (Json.read? document).bind listOfJson? with
  | some es => .ok es
  | none => .error .entries

end Entry

end ApiReference
