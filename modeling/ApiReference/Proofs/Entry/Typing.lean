import ApiReference.Proofs.Entry.Reordering
import ApiReference.Proofs.Entry.Writing

/-!
# Which objects are tags

Whether an object is a tag depends on its one member `type` and on the members that are fields of a tag of that kind:
each must be given once at most, by a value of its type (`Tag.Acceptable`). Members that are no fields do not matter,
and a kind that is not listed has no fields.

An object that is read is acceptable (`acceptable_of_ofJson`), and an acceptable one writes a tag
(`exists_writes_of_acceptable`), so it is read as the tag that it writes and as no other (`ofJson_eq_some_iff`).
-/

namespace ApiReference

open Json (Named ReadsTyped Shape Typed ofMembers)

namespace Tag

/-- The object has exactly one member `type`, whose value is a string, and gives each field of a tag of that kind once
at most, by a value of its type. -/
def Acceptable (members : List (Text × Json)) : Prop :=
  ∃ kind, Json.values "type".toList members = [.str (some kind)] ∧ Typed (topicOf kind).shape members

theorem readsTyped_ofKind (kind : Text) : ReadsTyped (topicOf kind).shape (ofKind? kind) :=
  (Shape.readsTyped _).map (ofValues (topicOf kind))

/-! ## What is read is acceptable -/

theorem typeValues_map (members : List (Text × Json)) :
    typeValues (members.map fun p => (some p.1, p.2)) = Json.values "type".toList members := by
  rw [typeValues, Json.values, List.filter_map, List.map_map]
  refine congrArg _ (List.filter_congr fun p _ => ?_)
  simp [isType]

theorem eq_of_onlyKind {xs : List Json} {kind : Text} (h : onlyKind? xs = some kind) : xs = [.str (some kind)] := by
  match xs with
  | [x] =>
    obtain ⟨s, rfl⟩ := Json.holds_of_text h
    obtain rfl : s = kind := Option.some.inj h
    rfl

/-- Only acceptable objects are read. -/
theorem acceptable_of_ofJson {members : List (Text × Json)} {t : Tag} (h : ofJson? (ofMembers members) = some t) :
    Acceptable members := by
  rw [ofJson_eq_bind] at h
  obtain ⟨-, h⟩ := Option.ite_none_right_eq_some.mp h
  obtain ⟨⟨kind, fields⟩, hsplit, h⟩ := Option.bind_eq_some_iff.mp h
  have hkind := hsplit
  rw [ofMembers, split_obj, typeValues_map] at hkind
  obtain ⟨_, honly, he⟩ := Option.map_eq_some_iff.mp hkind
  obtain ⟨rfl, -⟩ := Prod.mk.inj he
  have hvalues := eq_of_onlyKind honly
  obtain ⟨front, last, rfl, htype⟩ := Json.eq_append_of_values_eq hvalues
  rw [split_ofMembers htype] at hsplit
  obtain rfl : ofMembers (front ++ last) = fields := (Prod.mk.inj (Option.some.inj hsplit)).2
  exact ⟨_, hvalues, (Json.typed_insert_iff (Topic.type_ne_of_mem_shape _) _ _ _).mpr ((readsTyped_ofKind _).typed h)⟩

/-! ## What is acceptable is written for a tag -/

variable {members : List (Text × Json)} {extra : Json → Prop}

/-- Members with the right types give the fields of a tag on the topic. -/
theorem exists_fields {topic : Topic} (h : Typed topic.shape members) :
    ∃ t : Tag, t.topic = topic ∧ ∀ f ∈ t.fields, f.given (members.lookup f.name) := by
  obtain ⟨xs, hxs⟩ := Shape.exists_fields h
  refine ⟨ofValues topic xs, ?_⟩
  cases topic with
  | visibility =>
    -- any text is one of a visibility, so the field differs from one of text in its default only
    have htext := hxs _ (List.mem_singleton.mpr rfl)
    exact ⟨rfl, List.forall_mem_singleton.mpr (Visibility.given_iff.mpr ⟨xs.1, rfl, htext⟩)⟩
  | _ => exact ⟨rfl, hxs⟩

/-- Members with the right types give the fields of a tag on the topic, and no field twice. -/
theorem exists_named {topic : Topic} (h : Typed topic.shape members) (hextra : ∀ p ∈ members, extra p.2) :
    ∃ t : Tag, t.topic = topic ∧ Named extra t.fields members := by
  obtain ⟨t, rfl, hgiven⟩ := exists_fields h
  exact ⟨t, rfl, h.named t.fieldNames_fields hgiven hextra⟩

/-- Every acceptable object writes a tag. -/
theorem exists_writes_of_acceptable (hsettled : (ofMembers members).settled levels) (h : Acceptable members) :
    ∃ t, Writes t (ofMembers members) := by
  obtain ⟨kind, hvalues, htyped⟩ := h
  obtain ⟨front, last, rfl, htype⟩ := Json.eq_append_of_values_eq hvalues
  have hmembers := Json.settled_ofMembers_iff.mp hsettled
  rw [List.forall_mem_append, List.forall_mem_cons] at hmembers
  have hextra : ∀ p ∈ front ++ last, p.2.settled (levels - 1) :=
    List.forall_mem_append.mpr ⟨hmembers.1, hmembers.2.2⟩
  have htyped := (Json.typed_insert_iff (Topic.type_ne_of_mem_shape _) _ _ _).mp htyped
  obtain ⟨t, hkind, hnamed⟩ :
      ∃ t : Tag, t.topic = topicOf kind ∧ Named (fun v => v.settled (levels - 1)) t.fields (front ++ last) :=
    exists_named htyped hextra
  exact ⟨t, .object hkind htype hnamed⟩

/-- A settled object is read as the tag that it writes, and as no other. -/
theorem ofJson_eq_some_iff (hsettled : (ofMembers members).settled levels) {t : Tag} :
    ofJson? (ofMembers members) = some t ↔ Writes t (ofMembers members) := by
  refine ⟨fun h => ?_, writes_readBy t _⟩
  obtain ⟨t', ht'⟩ := exists_writes_of_acceptable hsettled (acceptable_of_ofJson h)
  obtain rfl : t' = t := Option.some.inj ((writes_readBy t' _ ht').symm.trans h)
  exact ht'

end Tag

end ApiReference
