import ApiReference.Proofs.Json.Reordering
import ApiReference.Proofs.Json.Typing

/-!
# Records of a shape

What holds of each type of fields holds of all records that are made of such fields, by induction on the shape:

- the fields of a shape are read as the values that they were written for (`read_of_writes`), from a record whose fields
  have the right types and from no other (`readsTyped`, `exists_fields`);
- neither the order of members nor a member that is no field matters to what is read (`readsRecord`);
- an object or an array with all fields writes them (`positional_members`, `named_members`).
-/

namespace ApiReference.Json

/-! ## Fields of a type -/

namespace FieldType

/-- A field of a type with a value. -/
def field (name : Text) : (type : FieldType) → type.Value → Field
  | .text, s => .text name s
  | .texts, xs => .list name Writing.text xs
  | .flag, b => .flag name b

/-- A value of a type. -/
def toJson : (type : FieldType) → type.Value → Json
  | .text, s => .ofText s
  | .texts, xs => .ofTexts xs
  | .flag, b => .bool b

variable {type : FieldType} {name : Text} {r : Record}

theorem name_field (name : Text) (type : FieldType) (x : type.Value) : (type.field name x).name = name := by
  cases type <;> rfl

theorem given_toJson (name : Text) (type : FieldType) (x : type.Value) :
    (type.field name x).given (some (type.toJson x)) := by
  cases type with
  | texts => exact list_writes_ofTexts x
  | _ => rfl

theorem field_of_given {x : type.Value} (h : (type.field name x).given (r.get? name)) :
    r.field? name type = some x := by
  cases type with
  | text => exact Record.text_of_given h
  | texts => exact Record.list_of_given Writing.text_readBy h
  | flag => exact Record.flag_of_given h

/-- A field that is left out has some value, and so has one that is given by a value of its type. -/
theorem exists_given (name : Text) {v? : Option Json} (h : ∀ v, v? = some v → type.Holds v) :
    ∃ x, (type.field name x).given v? := by
  cases v? with
  | none =>
    cases type with
    | text => exact ⟨[], rfl⟩
    | texts => exact ⟨[], rfl⟩
    | flag => exact ⟨false, rfl⟩
  | some v =>
    have hv := h v rfl
    cases type with
    | text => exact hv
    | texts =>
      obtain ⟨xs, rfl⟩ := hv
      exact ⟨xs, list_writes_ofTexts xs⟩
    | flag => exact hv

/-- Only a list of texts nests, one level deep. -/
theorem settled_field (levels : Nat) (name : Text) (x : type.Value) : (type.field name x).Settled (levels + 1) := by
  cases type with
  | text => exact Field.settled_text _ _ _
  | texts => exact Field.settled_texts levels _ _
  | flag => exact Field.settled_flag _ _ _

theorem field_alike {r r' : Record} (h : Record.Alike (fun _ => Permuted) r r') (name : Text) (type : FieldType) :
    r.field? name type = r'.field? name type := by
  cases type with
  | text => exact h.text permuted_text
  | texts => exact h.list (permuted_list permuted_text)
  | flag => exact h.flag permuted_flag

end FieldType

/-! ## Fields of a shape -/

namespace Shape

/-- The fields of a shape with some values. -/
def fields : (shape : Shape) → shape.Values → List Field
  | [], _ => []
  | (name, type) :: shape, (x, xs) => type.field name x :: fields shape xs

/-- The values of all fields by name. -/
def members : (shape : Shape) → shape.Values → List (Text × Json)
  | [], _ => []
  | (name, type) :: shape, (x, xs) => (name, type.toJson x) :: members shape xs

variable {shape : Shape}

theorem fieldNames_fields (shape : Shape) (xs : shape.Values) : fieldNames (shape.fields xs) = shape.names := by
  induction shape with
  | nil => rfl
  | cons f shape ih => exact congrArg₂ List.cons (FieldType.name_field f.1 f.2 xs.1) (ih xs.2)

theorem fst_members (shape : Shape) (xs : shape.Values) : (shape.members xs).map (·.1) = shape.names := by
  induction shape with
  | nil => rfl
  | cons f shape ih => exact congrArg (f.1 :: ·) (ih xs.2)

theorem positional_members (shape : Shape) (xs : shape.Values) :
    Positional (shape.fields xs) ((shape.members xs).map (·.2)) := by
  induction shape with
  | nil => exact rfl
  | cons f shape ih => exact ⟨FieldType.given_toJson f.1 f.2 xs.1, ih xs.2⟩

/-- An object with all fields gives them. -/
theorem named_members {extra : Json → Prop} (hnames : shape.names.Nodup) (xs : shape.Values) :
    Named extra (shape.fields xs) (shape.members xs) := by
  have hfields := fieldNames_fields shape xs
  exact (positional_members shape xs).named ((fst_members shape xs).trans hfields.symm) (hfields ▸ hnames)

theorem settled_fields (levels : Nat) (shape : Shape) (xs : shape.Values) :
    ∀ f ∈ shape.fields xs, f.Settled (levels + 1) := by
  induction shape with
  | nil => exact fun _ hf => absurd hf List.not_mem_nil
  | cons f shape ih => exact List.forall_mem_cons.mpr ⟨FieldType.settled_field levels f.1 xs.1, ih xs.2⟩

/-! ## Reading -/

theorem values_of_given {r : Record} {xs : shape.Values} (h : ∀ f ∈ shape.fields xs, f.given (r.get? f.name)) :
    values? r shape = some xs := by
  induction shape with
  | nil => rfl
  | cons f shape ih =>
    obtain ⟨name, type⟩ := f
    obtain ⟨x, xs⟩ := xs
    obtain ⟨hfield, hrest⟩ := List.forall_mem_cons.mp h
    rw [FieldType.name_field] at hfield
    rw [values?, FieldType.field_of_given hfield, ih hrest]
    rfl

theorem read_of_given {r : Record} {xs : shape.Values} {v : Json} (hr : record? shape.names v = some r)
    (h : ∀ f ∈ shape.fields xs, f.given (r.get? f.name)) : shape.read? v = some xs := by
  rw [read?, hr]
  exact values_of_given h

/-- **A record is read as what it was written for.** -/
theorem read_of_writes {extra : Json → Prop} {xs : shape.Values} {v : Json} (hnames : shape.names.Nodup)
    (h : WritesRecord extra (shape.fields xs) v) : shape.read? v = some xs := by
  rw [← fieldNames_fields shape xs] at hnames
  obtain ⟨r, hr, hgiven⟩ := record_of_writes h hnames
  rw [fieldNames_fields] at hr
  exact read_of_given hr hgiven

theorem holds_of_values {r : Record} {xs : shape.Values} (h : values? r shape = some xs) :
    ∀ f ∈ shape, ∀ w, r.get? f.1 = some w → f.2.Holds w := by
  induction shape with
  | nil => exact fun _ hf => absurd hf List.not_mem_nil
  | cons f shape ih =>
    obtain ⟨x, hx, h⟩ := Option.bind_eq_some_iff.mp h
    obtain ⟨xs, hxs, -⟩ := Option.bind_eq_some_iff.mp h
    exact List.forall_mem_cons.mpr ⟨Record.holds_of_field hx, ih hxs⟩

/-- A record that is read has fields of the right types. -/
theorem readsTyped (shape : Shape) : ReadsTyped shape shape.read? := by
  intro v xs h
  obtain ⟨r, hr, hxs⟩ := Option.bind_eq_some_iff.mp h
  exact ⟨r, hr, holds_of_values hxs⟩

/-- Members with the right types give each field some value. -/
theorem exists_fields {members : List (Text × Json)} (h : Typed shape members) :
    ∃ xs, ∀ f ∈ shape.fields xs, f.given (members.lookup f.name) := by
  induction shape with
  | nil => exact ⟨(), fun _ hf => absurd hf List.not_mem_nil⟩
  | cons f shape ih =>
    obtain ⟨name, type⟩ := f
    obtain ⟨x, hx⟩ := FieldType.exists_given name fun v hv => h.holds List.mem_cons_self hv
    obtain ⟨xs, hxs⟩ := ih fun f hf => h f (List.mem_cons_of_mem _ hf)
    refine ⟨(x, xs), List.forall_mem_cons.mpr ⟨?_, hxs⟩⟩
    rwa [FieldType.name_field]

theorem values_alike {r r' : Record} (h : Record.Alike (fun _ => Permuted) r r') (shape : Shape) :
    values? r shape = values? r' shape := by
  induction shape with
  | nil => rfl
  | cons f shape ih => rw [values?, values?, FieldType.field_alike h, ih]

/-- A record is read from its fields, whatever the order of their members. -/
theorem readsRecord (shape : Shape) : ReadsRecord shape.names (fun _ => Permuted) shape.read? :=
  readsRecord_bind fun _ _ h => values_alike h shape

end Shape

end ApiReference.Json
