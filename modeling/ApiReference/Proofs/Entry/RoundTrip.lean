import ApiReference.Proofs.Entry.Writing
import ApiReference.Proofs.Json.Layout

/-!
# Entries are read back

A document of some entries is any text of any value that writes them (`Entry.Document`). Every document of some entries
is parsed to these entries, and there is one for all entries (`Entry.parse_document`): the one in which every entry,
description, subject and tag is an object with all of its fields (`toJson`).
-/

namespace ApiReference

open Json (Named Positional Shape Writing ofMembers ofText)

/-! ## Objects with all fields -/

namespace Tag

/-- The first name of a kind of tags on a topic. -/
def Topic.kind (topic : Topic) : Text :=
  ((topics.find? (·.2 = topic)).map (·.1)).getD "other".toList

/-- The fields of a tag besides its kind, by name. -/
def members (t : Tag) : List (Text × Json) :=
  t.topic.shape.members t.values

/-- A tag as an object. -/
def toJson (t : Tag) : Json :=
  ofMembers (("type".toList, .ofText t.topic.kind) :: t.members)

end Tag

/-- The fields of the text of a comment, by name. -/
def Description.members (d : Description) : List (Text × Json) :=
  shape.members d.values

/-- The fields of what the line behind a comment declares, by name. -/
def Subject.members (s : Subject) : List (Text × Json) :=
  shape.members s.values

namespace Entry

/-- The fields of an entry, by name. -/
def members (e : Entry) : List (Text × Json) :=
  [("tags".toList, .arr (e.tags.map Tag.toJson)),
    ("description".toList, .ofOption (ofMembers ∘ Description.members) e.description),
    ("ctx".toList, .ofOption (ofMembers ∘ Subject.members) e.subject)]

/-- An entry as an object. -/
def toJson (e : Entry) : Json :=
  ofMembers e.members

/-- A tag of each kind, and all fields by their names. -/
example (v : Visibility) (f : FieldDoc) (r : ReturnDoc) (d : Description) (s : Subject) (name path code : Text) :
    let field (kind : Text) : Json :=
      ofMembers [("type".toList, ofText kind), ("name".toList, ofText f.name), ("types".toList, .ofTexts f.types),
        ("typesDescription".toList, ofText f.typeExpr), ("optional".toList, .bool f.optional),
        ("description".toList, ofText f.description)]
    toJson ⟨[.api v, .aliased name, .inModule path, .sample code, .param f, .property f, .returns r, .other], d, s⟩ =
      ofMembers [("tags".toList, .arr [
          ofMembers [("type".toList, ofText "api".toList), ("visibility".toList, ofText v.toText)],
          ofMembers [("type".toList, ofText "alias".toList), ("string".toList, ofText name)],
          ofMembers [("type".toList, ofText "module".toList), ("string".toList, ofText path)],
          ofMembers [("type".toList, ofText "example".toList), ("string".toList, ofText code)],
          field "param".toList, field "property".toList,
          ofMembers [("type".toList, ofText "returns".toList), ("types".toList, .ofTexts r.types),
            ("description".toList, ofText r.description)],
          ofMembers [("type".toList, ofText "other".toList)]]),
        ("description".toList, ofMembers [("full".toList, ofText d.full), ("summary".toList, ofText d.summary),
          ("body".toList, ofText d.body)]),
        ("ctx".toList, ofMembers [("type".toList, ofText s.kind), ("name".toList, ofText s.name)])] :=
  rfl

/-- The documents of some entries: every text of every value that writes them. -/
def Document (es : List Entry) (s : Text) : Prop :=
  ∃ v, Writing.list Writes es v ∧ v.Spelling s

end Entry

/-! ## The objects write what they are made of -/

theorem Visibility.writes_toText (v : Visibility) : v.Writes (.str (some v.toText)) := by
  refine ⟨_, rfl, ?_⟩
  cases v <;> decide

namespace Tag

theorem Topic.topicOf_kind (topic : Topic) : topic = topicOf topic.kind := by
  cases topic <;> decide

/-- No field of a tag is named like the member for its kind. -/
theorem ne_type_of_mem_members (t : Tag) : ∀ p ∈ t.members, p.1 ≠ "type".toList := by
  intro p hp he
  have hname : p.1 ∈ t.topic.shape.names := Shape.fst_members t.topic.shape t.values ▸ List.mem_map_of_mem hp
  obtain ⟨f, hf, hfname⟩ := List.mem_map.mp hname
  exact Topic.type_ne_of_mem_shape _ f hf (he.symm.trans hfname.symm)

/-- A visibility is given by its text, and any other tag by the values of its fields. -/
theorem named_members {extra : Json → Prop} (t : Tag) : Named extra t.fields t.members := by
  cases t with
  | api v =>
    have h : Positional (api v).fields ((api v).members.map (·.2)) := ⟨v.writes_toText, rfl⟩
    exact h.named rfl (List.pairwise_singleton _ _)
  | _ => exact Shape.named_members (Topic.nodup_names _) _

theorem writes_toJson (t : Tag) : t.Writes t.toJson := by
  show t.Writes (ofMembers ([] ++ ("type".toList, .ofText t.topic.kind) :: t.members))
  exact .object (Topic.topicOf_kind _) t.ne_type_of_mem_members t.named_members

end Tag

theorem Description.writes_members (d : Description) : d.Writes (ofMembers d.members) :=
  .object (Shape.named_members (by decide) d.values)

theorem Subject.writes_members (s : Subject) : s.Writes (ofMembers s.members) :=
  .object (Shape.named_members (by decide) s.values)

namespace Entry

theorem writes_toJson (e : Entry) : e.Writes e.toJson := by
  have h : Positional e.fields (e.members.map (·.2)) :=
    ⟨Writing.list_map Tag.writes_toJson e.tags,
      Json.optional_writes_ofOption Description.writes_members e.description,
      Json.optional_writes_ofOption Subject.writes_members e.subject, rfl⟩
  exact .object (h.named rfl nodup_names)

end Entry

end ApiReference
