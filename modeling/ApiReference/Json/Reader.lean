import ApiReference.Json.Token

/-!
# Reading a JSON document

A document is read token by token. What is known part way through is the value or punctuation that may come next and
the containers that are still open, innermost first (`State`), so that no limit is set on how deep a document nests.

- `State.step` takes one token, `State.value?` gives the value once the document is complete;
- `read?` reads a document; what is not one is refused as a whole.
-/

namespace ApiReference.Json

/-- A container part way through, without the value now being read. What came before stands last first. -/
inductive Frame
  | /-- An array with the items so far. -/ array (items : List Json)
  | /-- An object with the members so far, and the key whose value is being read. -/
    object (members : List (Str × Json)) (key : Str)

/-- What has been read of a document: what may come next, and the open containers, innermost first. -/
inductive State
  | /-- A value comes next. -/ value (frames : List Frame)
  | /-- An array was begun: its first item or its end comes next. -/ firstItem (frames : List Frame)
  | /-- An object was begun: its first key or its end comes next. -/ firstKey (frames : List Frame)
  | /-- A further key comes next. -/ key (members : List (Str × Json)) (frames : List Frame)
  | /-- A colon comes next. -/ colon (members : List (Str × Json)) (key : Str) (frames : List Frame)
  | /-- A value is complete: a comma, the end of a container or of the document comes next. -/
    complete (value : Json) (frames : List Frame)

namespace State

/-- The first token of a value. -/
def beginValue (frames : List Frame) : Token → Option State
  | .beginArray => some (.firstItem frames)
  | .beginObject => some (.firstKey frames)
  | .null => some (.complete .null frames)
  | .bool b => some (.complete (.bool b) frames)
  | .num x => some (.complete (.num x) frames)
  | .str s => some (.complete (.str s) frames)
  | _ => none

/-- One more token. -/
def step : State → Token → Option State
  | .value frames, t => beginValue frames t
  | .firstItem frames, .endArray => some (.complete (.arr []) frames)
  | .firstItem frames, t => beginValue (.array [] :: frames) t
  | .firstKey frames, .endObject => some (.complete (.obj []) frames)
  | .firstKey frames, .str k => some (.colon [] k frames)
  | .key members frames, .str k => some (.colon members k frames)
  | .colon members k frames, .colon => some (.value (.object members k :: frames))
  | .complete v (.array items :: frames), .comma => some (.value (.array (v :: items) :: frames))
  | .complete v (.array items :: frames), .endArray => some (.complete (.arr (v :: items).reverse) frames)
  | .complete v (.object members k :: frames), .comma => some (.key ((k, v) :: members) frames)
  | .complete v (.object members k :: frames), .endObject =>
    some (.complete (.obj ((k, v) :: members).reverse) frames)
  | _, _ => none

/-- The value of a complete document. -/
def value? : State → Option Json
  | .complete v [] => some v
  | _ => none

end State

/-- The value a document writes: its tokens, one after another, and nothing left open. -/
def read? (s : Text) : Option Json := do
  let ts ← tokens? s
  let state ← ts.foldlM State.step (.value [])
  state.value?

end ApiReference.Json
