import ApiReference.Proofs.Json.Writing
import Mathlib.Data.List.Nodup

/-!
# Types of fields

A field of text, of several texts or a boolean one is read from a value of its type and from no other. So a reader of
records accepts an object only if each of its fields is given once at most, by a value of its type (`Typed`,
`ReadsTyped.typed`). If that is so, the values under the names of the fields have their types (`Typed.holds`), and the
fields that they give are those of a record (`Typed.named`).
-/

namespace ApiReference.Json

/-! ## Types -/

/-- The values of a type. -/
def FieldType.Holds : FieldType → Json → Prop
  | .text, v => ∃ s, v = .str (some s)
  | .texts, v => ∃ xs, v = ofTexts xs
  | .flag, v => ∃ b, v = .bool b

theorem holds_of_text {v : Json} {s : Text} (h : text? v = some s) : FieldType.text.Holds v := by
  cases v with
  | str s' =>
    obtain rfl : s' = some s := h
    exact ⟨s, rfl⟩
  | _ => cases h

theorem holds_of_flag {v : Json} {b : Bool} (h : flag? v = some b) : FieldType.flag.Holds v := by
  cases v with
  | bool b' => exact ⟨b', rfl⟩
  | _ => cases h

theorem eq_map_of_mapM_text {items : List Json} {xs : List Text} (h : items.mapM text? = some xs) :
    items = xs.map fun x => .str (some x) := by
  induction items generalizing xs with
  | nil =>
    obtain rfl : [] = xs := Option.some.inj h
    rfl
  | cons v items ih =>
    rw [List.mapM_cons] at h
    obtain ⟨x, hx, h⟩ := Option.bind_eq_some_iff.mp h
    obtain ⟨ys, hys, h⟩ := Option.bind_eq_some_iff.mp h
    obtain rfl := Option.some.inj h
    obtain ⟨s, rfl⟩ := holds_of_text hx
    obtain rfl : s = x := Option.some.inj hx
    rw [ih hys]
    rfl

theorem holds_of_texts {v : Json} {xs : List Text} (h : list? text? v = some xs) : FieldType.texts.Holds v := by
  cases v with
  | arr items => exact ⟨xs, congrArg Json.arr (eq_map_of_mapM_text h)⟩
  | _ => cases h

/-! ## Values under a name -/

/-- The values that are given under a name. -/
def values (name : Text) (members : List (Text × Json)) : List Json :=
  (members.filter (·.1 = name)).map (·.2)

/-- Each field is given once at most, and by a value of its type. -/
def Typed (shape : Shape) (members : List (Text × Json)) : Prop :=
  ∀ f ∈ shape, (values f.1 members).length ≤ 1 ∧ ∀ v ∈ values f.1 members, f.2.Holds v

theorem values_cons_self (name : Text) (v : Json) (members : List (Text × Json)) :
    values name ((name, v) :: members) = v :: values name members := by
  simp [values]

theorem values_cons_ne {name key : Text} (h : key ≠ name) (v : Json) (members : List (Text × Json)) :
    values name ((key, v) :: members) = values name members := by
  simp [values, h]

theorem values_append (name : Text) (members members' : List (Text × Json)) :
    values name (members ++ members') = values name members ++ values name members' := by
  simp [values]

/-- A name with one value stands in one place. -/
theorem eq_append_of_values_eq {name : Text} {v : Json} {members : List (Text × Json)} (h : values name members = [v]) :
    ∃ front last, members = front ++ (name, v) :: last ∧ ∀ p ∈ front ++ last, p.1 ≠ name := by
  obtain ⟨⟨key, w⟩, hfilter, rfl⟩ := List.map_eq_singleton_iff.mp h
  obtain ⟨front, last, rfl, hfront, hkey, hlast⟩ := List.filter_eq_cons_iff.mp hfilter
  obtain rfl : key = name := of_decide_eq_true hkey
  refine ⟨front, last, rfl, List.forall_mem_append.mpr ⟨fun p hp => ?_, fun p hp => ?_⟩⟩
  · simpa using hfront p hp
  · simpa using List.filter_eq_nil_iff.mp hlast p hp

/-- A member that is no field does not matter to the types of the fields. -/
theorem typed_insert_iff {shape : Shape} {name : Text} (h : ∀ f ∈ shape, name ≠ f.1) (v : Json)
    (front last : List (Text × Json)) : Typed shape (front ++ (name, v) :: last) ↔ Typed shape (front ++ last) := by
  refine forall₂_congr fun f hf => ?_
  rw [values_append, values_append, values_cons_ne (h f hf)]

/-- The first value under a name is the one that is found. -/
theorem lookup_eq_head_values (name : Text) (members : List (Text × Json)) :
    members.lookup name = (values name members).head? := by
  induction members with
  | nil => rfl
  | cons p members ih =>
    obtain ⟨key, v⟩ := p
    by_cases hkey : key = name
    · subst hkey
      rw [values_cons_self, List.lookup_cons_self]
      rfl
    · rw [values_cons_ne hkey, lookup_cons_ne (Ne.symm hkey), ih]

theorem length_values (name : Text) (members : List (Text × Json)) :
    (values name members).length = (members.map (·.1)).count name := by
  induction members with
  | nil => rfl
  | cons p members ih =>
    obtain ⟨key, v⟩ := p
    by_cases hkey : key = name
    · subst hkey
      rw [values_cons_self, List.length_cons, ih, List.map_cons, List.count_cons_self]
    · rw [values_cons_ne hkey, ih, List.map_cons, List.count_cons_of_ne hkey]

/-- No field is given twice if there is one value of each at most. -/
theorem nodup_known_iff (names : List Text) (members : List (Text × Json)) :
    ((members.filter (·.1 ∈ names)).map (·.1)).Nodup ↔ ∀ name ∈ names, (values name members).length ≤ 1 := by
  have hknown : ∀ name ∈ names, values name (members.filter (·.1 ∈ names)) = values name members := by
    intro name hname
    rw [values, values, List.filter_filter]
    refine congrArg _ (List.filter_congr fun p _ => ?_)
    by_cases hp : p.1 = name <;> simp [hp, hname]
  rw [List.nodup_iff_count_le_one]
  constructor
  · intro h name hname
    rw [← hknown name hname, length_values]
    exact h name
  · intro h name
    by_cases hname : name ∈ names
    · rw [← length_values, hknown name hname]
      exact h name hname
    · rw [List.count_eq_zero.mpr]
      · exact Nat.zero_le 1
      · rintro hmem
        obtain ⟨p, hp, rfl⟩ := List.mem_map.mp hmem
        exact hname (of_decide_eq_true (List.mem_filter.mp hp).2)

/-! ## Readers of typed fields -/

/-- What a reader accepts is a record whose fields have the right types. -/
def ReadsTyped {α : Type} (shape : Shape) (read? : Json → Option α) : Prop :=
  ∀ v x, read? v = some x → ∃ r, record? shape.names v = some r ∧ ∀ f ∈ shape, ∀ w, r.get? f.1 = some w → f.2.Holds w

variable {r : Record} {name : Text}

theorem ReadsTyped.map {α β : Type} {shape : Shape} {read? : Json → Option α} (h : ReadsTyped shape read?)
    (f : α → β) : ReadsTyped shape fun v => (read? v).map f := by
  intro v y hy
  obtain ⟨x, hx, -⟩ := Option.map_eq_some_iff.mp hy
  exact h v x hx

/-- A field that is read has a value that is read as it, if it is given. -/
theorem Record.read_of_getD {α : Type} {default x : α} {read? : Json → Option α}
    (h : r.getD? name default read? = some x) {w : Json} (hw : r.get? name = some w) : read? w = some x := by
  unfold Record.getD? at h
  rwa [hw] at h

/-- A field that is read has a value of its type, if it is given. -/
theorem Record.holds_of_field {type : FieldType} {x : type.Value} (h : r.field? name type = some x) :
    ∀ w, r.get? name = some w → type.Holds w := by
  intro w hw
  cases type with
  | text => exact Json.holds_of_text (read_of_getD h hw)
  | texts => exact Json.holds_of_texts (read_of_getD h hw)
  | flag => exact Json.holds_of_flag (read_of_getD h hw)

/-- The record of an object holds the members that are fields, none of them twice. -/
theorem record_ofMembers_eq_some {names : List Text} {members : List (Text × Json)}
    (h : record? names (ofMembers members) = some r) :
    ((members.filter (·.1 ∈ names)).map (·.1)).Nodup ∧ r = ⟨members.filter (·.1 ∈ names)⟩ := by
  by_cases hnodup : ((members.filter (·.1 ∈ names)).map (·.1)).Nodup
  · exact ⟨hnodup, (Option.some.inj ((record_ofMembers hnodup).symm.trans h)).symm⟩
  · have hnone : record? names (ofMembers members) = none := by
      show Option.bind (textKeys? (members.map fun p => (some p.1, p.2))) _ = _
      rw [textKeys_map, Option.bind_some]
      show Option.bind (if _ then _ else _) _ = _
      rw [if_neg hnodup]
      rfl
    rw [hnone] at h
    cases h

/-- An object that is accepted gives each field once at most, by a value of its type. -/
theorem ReadsTyped.typed {α : Type} {shape : Shape} {read? : Json → Option α} (hread : ReadsTyped shape read?)
    {members : List (Text × Json)} {x : α} (h : read? (ofMembers members) = some x) : Typed shape members := by
  obtain ⟨r, hr, hholds⟩ := hread _ x h
  obtain ⟨hnodup, rfl⟩ := record_ofMembers_eq_some hr
  intro f hf
  have hname : f.1 ∈ shape.names := List.mem_map_of_mem hf
  have hlength := (nodup_known_iff _ members).mp hnodup f.1 hname
  refine ⟨hlength, fun v hv => ?_⟩
  have hvalues : values f.1 members = [v] := by
    cases hvs : values f.1 members with
    | nil => rw [hvs] at hv; cases hv
    | cons w ws =>
      rw [hvs] at hv hlength
      obtain rfl : ws = [] := List.eq_nil_of_length_eq_zero (Nat.le_zero.mp (Nat.le_of_succ_le_succ hlength))
      rw [List.mem_singleton.mp hv]
  refine hholds f hf v ?_
  rw [Record.get?, lookup_filter hname, lookup_eq_head_values, hvalues]
  rfl

/-! ## Values of typed fields -/

namespace Typed

variable {shape : Shape} {members : List (Text × Json)}

theorem holds (h : Typed shape members) {type : FieldType} (hf : (name, type) ∈ shape) {v : Json}
    (hv : members.lookup name = some v) : type.Holds v := by
  rw [lookup_eq_head_values] at hv
  exact (h _ hf).2 v (List.mem_of_head? hv)

/-- Members with the right types give fields, if they give each of them. -/
theorem named (h : Typed shape members) {given : List Field} (hnames : fieldNames given = shape.names)
    (hgiven : ∀ f ∈ given, f.given (members.lookup f.name)) {extra : Json → Prop} (hextra : ∀ p ∈ members, extra p.2) :
    Named extra given members where
  nodup := by
    rw [hnames, nodup_known_iff]
    intro name hname
    obtain ⟨f, hf, rfl⟩ := List.mem_map.mp hname
    exact (h f hf).1
  given := hgiven
  extra p hp _ := hextra p hp

end Typed

end ApiReference.Json
