import ApiReference.Entry.Decode
import ApiReference.Proofs.Json.Shape

/-!
# Ways of writing an entry

The values that write an entry and its parts: records as objects or arrays, fields given or left out, members that are
no fields. An object for a tag has its member `type` anywhere, and all other values in it must be settled.

- `Tag.writes_readBy`, `Entry.writes_readBy`: every value that writes a tag or an entry is read as such.
-/

namespace ApiReference

open Json (Field Record Shape Writing WritesRecord Named Positional ofMembers record? record_of_writes)

/-! ## Values of fields -/

/-- Only `private` writes that a symbol is internal. -/
def Visibility.Writes : Writing Visibility :=
  fun x v => ∃ s, v = .str (some s) ∧ (x = .internal ↔ s = "private".toList)

/-- The text of a visibility. -/
def Visibility.toText : Visibility → Text
  | .published => "public".toList
  | .internal => "private".toList

/-- The values of the fields of a parameter or a property. -/
def FieldDoc.values (f : FieldDoc) : shape.Values :=
  (f.name, f.types, f.typeExpr, f.optional, f.description, ())

/-- The values of the fields of a returned value. -/
def ReturnDoc.values (r : ReturnDoc) : shape.Values :=
  (r.types, r.description, ())

/-- The values of the fields of the text of a comment. -/
def Description.values (d : Description) : shape.Values :=
  (d.full, d.summary, d.body, ())

/-- The text of a comment is written as a record with any further members. -/
def Description.Writes : Writing Description :=
  fun d => WritesRecord (fun _ => True) (shape.fields d.values)

/-- The values of the fields of what the line behind a comment declares. -/
def Subject.values (s : Subject) : shape.Values :=
  (s.kind, s.name, ())

/-- What the line behind a comment declares is written as a record with any further members. -/
def Subject.Writes : Writing Subject :=
  fun s => WritesRecord (fun _ => True) (shape.fields s.values)

/-! ## Tags -/

namespace Tag

/-- The values of the fields of a tag besides its kind. -/
def values : (t : Tag) → t.topic.shape.Values
  | .api v => (v.toText, ())
  | .aliased name => (name, ())
  | .inModule path => (path, ())
  | .param f => f.values
  | .property f => f.values
  | .sample code => (code, ())
  | .returns r => r.values
  | .other => ()

/-- The fields of a tag besides its kind. There is more than one text for a visibility. -/
def fields : Tag → List Field
  | .api v => Topic.visibility.shape.names.map fun name => .ofDefault name .published Visibility.Writes v
  | t => t.topic.shape.fields t.values

/-- A tag is written as an object with its kind as the one member `type`, before, between or behind the others, or as an
array with its kind in front. -/
inductive Writes : Writing Tag
  | object {t : Tag} {kind : Text} {front last : List (Text × Json)} (hkind : t.topic = topicOf kind)
      (htype : ∀ p ∈ front ++ last, p.1 ≠ "type".toList)
      (h : Named (fun v => v.settled (levels - 1)) t.fields (front ++ last)) :
      Writes t (ofMembers (front ++ ("type".toList, .str (some kind)) :: last))
  | array {t : Tag} {kind : Text} {items : List Json} (hkind : t.topic = topicOf kind)
      (h : Positional t.fields items) : Writes t (.arr (.str (some kind) :: items))

end Tag

/-! ## Entries -/

namespace Entry

/-- The fields of an entry. -/
def fields (e : Entry) : List Field :=
  [.list "tags".toList Tag.Writes e.tags, .optional "description".toList Description.Writes e.description,
    .optional "ctx".toList Subject.Writes e.subject]

/-- An entry is written as a record with any further members. -/
def Writes : Writing Entry :=
  fun e => WritesRecord (fun _ => True) e.fields

end Entry

/-! ## Reading records -/

variable {extra : Json → Prop} {v : Json}

theorem Visibility.ofText_eq_iff {x : Visibility} {s : Text} :
    ofText s = x ↔ (x = .internal ↔ s = "private".toList) := by
  unfold ofText
  by_cases hs : s = "private".toList
  · rw [if_pos hs, iff_true_right hs, eq_comm]
  · rw [if_neg hs, iff_false_right hs]
    cases x <;> decide

/-- A visibility is given if a text that writes it is, and the default if none is. -/
theorem Visibility.given_iff {name : Text} {x : Visibility} {v? : Option Json} :
    (Field.ofDefault name .published Visibility.Writes x).given v? ↔
      ∃ s, ofText s = x ∧ (Field.text name s).given v? := by
  cases v? with
  | none =>
    constructor
    · intro (h : x = .published)
      exact ⟨[], by rw [h]; decide, rfl⟩
    · rintro ⟨s, hx, hs⟩
      obtain rfl : s = [] := hs
      exact hx.symm
  | some v =>
    refine exists_congr fun s => ?_
    rw [ofText_eq_iff, and_comm]
    exact Iff.rfl

theorem Description.writes_readBy : Description.Writes.ReadBy Description.ofJson? := by
  intro d v h
  rw [ofJson?, Shape.read_of_writes (by decide) h]
  rfl

theorem Subject.writes_readBy : Subject.Writes.ReadBy Subject.ofJson? := by
  intro s v h
  rw [ofJson?, Shape.read_of_writes (by decide) h]
  rfl

theorem Entry.nodup_names : Entry.names.Nodup := by
  decide

/-! ## Reading tags -/

namespace Tag

theorem Topic.nodup_names (topic : Topic) : topic.shape.names.Nodup := by
  cases topic <;> decide

/-- No field of a tag is named like the member for its kind. -/
theorem Topic.type_ne_of_mem_shape (topic : Topic) : ∀ f ∈ topic.shape, "type".toList ≠ f.1 := by
  cases topic <;> decide

theorem fieldNames_fields (t : Tag) : Json.fieldNames t.fields = t.topic.shape.names := by
  cases t with
  | api v => rfl
  | _ => exact Shape.fieldNames_fields _ _

/-- A tag is made of the values of its fields. -/
theorem ofValues_values (t : Tag) : ofValues t.topic t.values = t := by
  cases t with
  | api v => cases v <;> decide
  | _ => rfl

/-- A tag is read from its fields, given one of the names of its kind. -/
theorem ofKind_of_writes {t : Tag} {kind : Text} (hkind : t.topic = topicOf kind)
    (h : WritesRecord extra t.fields v) : ofKind? kind v = some t := by
  have hread : ∀ xs, t.topic.shape.read? v = some xs → ofKind? kind v = some (ofValues t.topic xs) := by
    intro xs hxs
    rw [ofKind?, ← hkind, hxs, Option.map_some]
  cases t with
  | api x =>
    obtain ⟨r, hr, hgiven⟩ := record_of_writes h (Topic.nodup_names .visibility)
    obtain ⟨s, rfl, hs⟩ := Visibility.given_iff.mp (hgiven _ (List.mem_singleton.mpr rfl))
    exact hread (s, ()) (Shape.read_of_given hr (List.forall_mem_singleton.mpr hs))
  | _ => exact (hread _ (Shape.read_of_writes (Topic.nodup_names _) h)).trans (congrArg some (ofValues_values _))

/-- An object is split into its one member `type` and the others. -/
theorem split_ofMembers {kind : Text} {front last : List (Text × Json)}
    (h : ∀ p ∈ front ++ last, p.1 ≠ "type".toList) :
    split? (ofMembers (front ++ ("type".toList, .str (some kind)) :: last)) =
      some (kind, ofMembers (front ++ last)) := by
  have hkeys : ∀ q ∈ (front ++ last).map (fun p => (some p.1, p.2)), ¬ q.1 = some "type".toList := by
    intro q hq
    obtain ⟨p, hp, rfl⟩ := List.mem_map.mp hq
    exact fun he => h p hp (Option.some.inj he)
  rw [List.map_append, List.forall_mem_append] at hkeys
  have hpart : List.partition (fun q : Json.Str × Json => decide (q.1 = some "type".toList))
      ((front ++ ("type".toList, .str (some kind)) :: last).map fun p => (some p.1, p.2)) =
      ([(some "type".toList, .str (some kind))], (front ++ last).map fun p => (some p.1, p.2)) := by
    rw [List.partition_eq_filter_filter, List.map_append, List.map_cons, List.map_append, List.filter_append,
      List.filter_append, List.filter_cons_of_pos (by simp), List.filter_cons_of_neg (by simp),
      List.filter_eq_nil_iff.mpr fun q hq => by simpa using hkeys.1 q hq,
      List.filter_eq_nil_iff.mpr fun q hq => by simpa using hkeys.2 q hq,
      List.filter_eq_self.mpr fun q hq => by simpa using hkeys.1 q hq,
      List.filter_eq_self.mpr fun q hq => by simpa using hkeys.2 q hq]
    rfl
  simp only [split?, ofMembers, hpart]

/-- The values that may be given for a field of a tag are settled. -/
theorem settled_fields (t : Tag) : ∀ f ∈ t.fields, f.Settled (levels - 1) := by
  cases t with
  | api x =>
    refine List.forall_mem_singleton.mpr ?_
    rintro v ⟨s, rfl, -⟩
    rfl
  | _ => exact Shape.settled_fields (levels - 2) _ _

/-- **Every value that writes a tag is read as the tag.** -/
theorem writes_readBy : Tag.Writes.ReadBy Tag.ofJson? := by
  rintro t v (⟨hkind, htype, h⟩ | ⟨hkind, h⟩)
  · rename_i kind front last
    have hsettled : (ofMembers (front ++ ("type".toList, .str (some kind)) :: last)).settled levels := by
      have hmembers := h.settled t.settled_fields
      rw [List.forall_mem_append] at hmembers
      refine Json.settled_ofMembers_iff.mpr ?_
      rw [List.forall_mem_append, List.forall_mem_cons]
      exact ⟨hmembers.1, rfl, hmembers.2⟩
    unfold ofJson?
    rw [hsettled, split_ofMembers htype]
    -- the members before and behind `type` are read as one object
    exact ofKind_of_writes hkind (.object h)
  · rename_i kind items
    have hsettled : (Json.arr (.str (some kind) :: items)).settled levels := h.settled t.settled_fields
    unfold ofJson?
    rw [hsettled]
    have hrecord : WritesRecord (fun _ => True) t.fields (.arr items) := .array h
    exact ofKind_of_writes hkind hrecord

end Tag

/-! ## Reading entries -/

/-- **Every value that writes an entry is read as the entry.** -/
theorem Entry.writes_readBy : Entry.Writes.ReadBy Entry.ofJson? := by
  intro e v h
  obtain ⟨r, hr, hfields⟩ := record_of_writes h Entry.nodup_names
  simp only [fields, List.forall_mem_cons] at hfields
  obtain ⟨htags, hdescription, hsubject, -⟩ := hfields
  unfold ofJson?
  show (record? (Json.fieldNames e.fields) v).bind _ = _
  rw [hr, Option.bind_some, Record.list_of_given Tag.writes_readBy htags,
    Record.optional_of_given Description.writes_readBy (fun _ => Json.not_writesRecord_null) hdescription,
    Record.optional_of_given Subject.writes_readBy (fun _ => Json.not_writesRecord_null) hsubject]
  rfl

end ApiReference
