import ApiReference.Proofs.Json.Reordering
import ApiReference.Proofs.Json.Typing

/-!
# Which values are refused

A value is refused as a record exactly if it has not the form of one, or gives a field twice, or gives it by a value
that is refused for this field (`Refused`). What is not refused is read field by field from what is given (`given`), so

- `refuses_record`: a reader of records refuses what it has to refuse, and nothing else;
- `exists_optional_iff`: what is read of a field that may be `null` is what is given for it;
- `writes_of_record`: what is read as a record writes it, so the ways of writing a record are all there are.
-/

namespace ApiReference.Json

variable {names : List Text} {name : Text} {v : Json} {r : Record}

/-! ## What a record gives -/

/-- The values that are given for a field: by the members with its name, or by the item in its place. -/
def given (names : List Text) (name : Text) : Json → List Json
  | .obj members => (members.filter (·.1 = some name)).map (·.2)
  | .arr items => items[names.idxOf name]?.toList
  | _ => []

/-- The forms of a record: an object whose keys are text, and an array with no more items than there are fields. -/
inductive HasForm (names : List Text) : Json → Prop
  | object {members : List (Str × Json)} (h : ∀ p ∈ members, p.1.isSome) : HasForm names (.obj members)
  | array {items : List Json} (h : items.length ≤ names.length) : HasForm names (.arr items)

/-- A value that is refused as a record, given the fields, each with the values that are refused for it. -/
inductive Refused (fields : List (Text × (Json → Prop))) (v : Json) : Prop
  | form (h : ¬ HasForm (fields.map (·.1)) v)
  | twice {name : Text} (hname : name ∈ fields.map (·.1)) (h : 1 < (given (fields.map (·.1)) name v).length)
  | value {f : Text × (Json → Prop)} {x : Json} (hf : f ∈ fields) (hx : x ∈ given (fields.map (·.1)) f.1 v)
      (h : f.2 x)

theorem given_ofMembers (names : List Text) (name : Text) (members : List (Text × Json)) :
    given names name (ofMembers members) = values name members := by
  show List.map _ (List.filter _ (members.map fun p => (some p.1, p.2))) = _
  rw [values, List.filter_map, List.map_map]
  refine congrArg _ (List.filter_congr fun p _ => ?_)
  simp

theorem HasForm.exists_eq_ofMembers {members : List (Str × Json)} (h : HasForm names (.obj members)) :
    ∃ members', Json.obj members = ofMembers members' := by
  cases h with
  | object hkeys =>
    refine ⟨members.map fun p => (p.1.getD [], p.2), congrArg Json.obj ?_⟩
    rw [List.map_map]
    refine (List.map_id members).symm.trans (List.map_congr_left fun p hp => ?_)
    obtain ⟨key, hkey⟩ := Option.isSome_iff_exists.mp (hkeys p hp)
    simp [Prod.ext_iff, hkey]

/-! ## Which values are records -/

/-- The item in the place of a field is the one that is found. -/
theorem lookup_zip (h : name ∈ names) (items : List Json) :
    (names.zip items).lookup name = items[names.idxOf name]? := by
  induction names generalizing items with
  | nil => cases h
  | cons key names ih =>
    cases items with
    | nil => rfl
    | cons x items =>
      rw [List.zip_cons_cons]
      by_cases hkey : name = key
      · subst hkey
        simp
      · rw [lookup_cons_ne hkey, List.idxOf_cons_ne _ (Ne.symm hkey), List.getElem?_cons_succ]
        exact ih ((List.mem_cons.mp h).resolve_left hkey) items

theorem toList_head {α : Type} {xs : List α} (h : xs.length ≤ 1) : xs.head?.toList = xs := by
  match xs with
  | [] => rfl
  | [_] => rfl
  | _ :: _ :: _ => simp at h

theorem record_arr_eq_some {items : List Json} (h : record? names (.arr items) = some r) :
    items.length ≤ names.length ∧ r = ⟨names.zip items⟩ := by
  rw [record_arr_eq_ite] at h
  obtain ⟨hlen, h⟩ := Option.ite_none_right_eq_some.mp h
  exact ⟨hlen, (Option.some.inj h).symm⟩

theorem isSome_record_ofMembers_iff {members : List (Text × Json)} :
    (record? names (ofMembers members)).isSome ↔ ∀ name ∈ names, (values name members).length ≤ 1 := by
  rw [← nodup_known_iff, Option.isSome_iff_exists]
  constructor
  · rintro ⟨r, hr⟩
    exact (record_ofMembers_eq_some hr).1
  · exact fun hnodup => ⟨_, record_ofMembers hnodup⟩

/-- A value is a record if it has the form of one and gives no field twice. -/
theorem isSome_record_iff (names : List Text) (v : Json) :
    (record? names v).isSome ↔ HasForm names v ∧ ∀ name ∈ names, (given names name v).length ≤ 1 := by
  cases v with
  | obj members =>
    -- keys that are all text make it an object of named members, where each name is counted
    by_cases hkeys : ∀ p ∈ members, p.1.isSome
    · have hform : HasForm names (.obj members) := .object hkeys
      obtain ⟨members', he⟩ := hform.exists_eq_ofMembers
      rw [he] at hform ⊢
      simp only [given_ofMembers, hform, true_and]
      exact isSome_record_ofMembers_iff
    · rw [record_obj, if_neg fun h => hkeys h.1]
      refine iff_of_false Bool.false_ne_true fun h => ?_
      cases h.1 with
      | object h => exact hkeys h
  | arr items =>
    rw [record_arr_eq_ite, Option.isSome_ite]
    constructor
    · intro h
      refine ⟨.array h, fun name _ => ?_⟩
      show (items[names.idxOf name]?.toList).length ≤ 1
      cases items[names.idxOf name]? <;> simp
    · rintro ⟨h, -⟩
      cases h with
      | array h => exact h
  | _ =>
    refine iff_of_false Bool.false_ne_true fun h => ?_
    cases h.1

theorem hasForm_of_record (h : record? names v = some r) : HasForm names v :=
  ((isSome_record_iff names v).mp (Option.isSome_of_eq_some h)).1

/-- What is given for a field is found in the record, and nothing else. -/
theorem given_of_record (h : record? names v = some r) (hname : name ∈ names) :
    given names name v = (r.get? name).toList := by
  obtain ⟨hform, honce⟩ := (isSome_record_iff names v).mp (Option.isSome_of_eq_some h)
  have hlen := honce name hname
  cases v with
  | obj members =>
    obtain ⟨members', he⟩ := hform.exists_eq_ofMembers
    rw [he] at h hlen ⊢
    obtain ⟨-, rfl⟩ := record_ofMembers_eq_some h
    rw [given_ofMembers] at hlen ⊢
    rw [Record.get?, lookup_filter hname, lookup_eq_head_values, toList_head hlen]
  | arr items =>
    obtain ⟨-, rfl⟩ := record_arr_eq_some h
    rw [Record.get?, lookup_zip hname]
    rfl
  | _ => cases hform

theorem mem_given_iff (h : record? names v = some r) (hname : name ∈ names) {x : Json} :
    x ∈ given names name v ↔ r.get? name = some x := by
  rw [given_of_record h hname, Option.mem_toList]

/-! ## What is refused -/

/-- The reader refuses these values and no others. -/
def Refuses {α : Type} (read? : Json → Option α) (refused : Json → Prop) : Prop :=
  ∀ v, read? v = none ↔ refused v

theorem refuses_text : Refuses text? fun v => ¬ FieldType.text.Holds v := by
  intro v
  rw [← Option.not_isSome_iff_eq_none, not_iff_not, Option.isSome_iff_exists]
  constructor
  · rintro ⟨s, hs⟩
    exact holds_of_text hs
  · rintro ⟨s, rfl⟩
    exact ⟨s, rfl⟩

theorem Refuses.optional {α : Type} {read? : Json → Option α} {refused : Json → Prop} (h : Refuses read? refused) :
    Refuses (optional? read?) fun v => v ≠ .null ∧ refused v := by
  intro v
  cases v with
  | null => simp [optional?]
  | _ => simp [optional?, h _]

/-- What is made of a record is refused if a field has a value that is refused for it, and for no other reason. -/
def RefusesFields {α : Type} (fields : List (Text × (Json → Prop))) (build? : Record → Option α) : Prop :=
  ∀ r, build? r = none ↔ ∃ f ∈ fields, ∃ x, r.get? f.1 = some x ∧ f.2 x

theorem RefusesFields.nil {α : Type} (x : α) : RefusesFields [] fun _ => some x := by
  intro r
  simp

/-- One more field is read, and its value does not matter to what is refused of the others. -/
theorem RefusesFields.cons {α β : Type} {default : α} {read? : Json → Option α} {refused : Json → Prop}
    {fields : List (Text × (Json → Prop))} {build? : α → Record → Option β} (hread : Refuses read? refused)
    (hbuild : ∀ x, RefusesFields fields (build? x)) :
    RefusesFields ((name, refused) :: fields) fun r => (r.getD? name default read?).bind fun x => build? x r := by
  intro r
  have hfield : r.getD? name default read? = none ↔ ∃ x, r.get? name = some x ∧ refused x := by
    unfold Record.getD?
    cases r.get? name with
    | none => simp
    | some x => simp [hread x]
  have hcons : (∃ f ∈ (name, refused) :: fields, ∃ x, r.get? f.1 = some x ∧ f.2 x) ↔
      r.getD? name default read? = none ∨ ∃ f ∈ fields, ∃ x, r.get? f.1 = some x ∧ f.2 x := by
    rw [hfield, List.exists_mem_cons_iff]
  rw [hcons]
  show (r.getD? name default read?).bind (fun x => build? x r) = none ↔ _
  cases r.getD? name default read? with
  | none => simp
  | some x => rw [Option.bind_some, hbuild x r, or_iff_right (Option.some_ne_none x)]

/-- **A reader of records refuses what it has to refuse**, if it refuses a record for its fields only. -/
theorem refuses_record {α : Type} (fields : List (Text × (Json → Prop))) (hnames : fields.map (·.1) = names)
    {build? : Record → Option α} (h : RefusesFields fields build?) :
    Refuses (fun v => (record? names v).bind build?) (Refused fields) := by
  subst hnames
  intro v
  show (record? (fields.map (·.1)) v).bind build? = none ↔ Refused fields v
  cases hr : record? (fields.map (·.1)) v with
  | none =>
    have hnone := mt (isSome_record_iff (fields.map (·.1)) v).mpr (by simp [hr])
    refine iff_of_true rfl ?_
    by_cases hform : HasForm (fields.map (·.1)) v
    · by_contra hnot
      exact hnone ⟨hform, fun name hname => Nat.le_of_not_lt fun h => hnot (.twice hname h)⟩
    · exact .form hform
  | some r =>
    obtain ⟨hform, honce⟩ := (isSome_record_iff (fields.map (·.1)) v).mp (by simp [hr])
    rw [Option.bind_some, h r]
    constructor
    · rintro ⟨f, hf, x, hx, hrefused⟩
      exact .value hf ((mem_given_iff hr (List.mem_map_of_mem hf)).mpr hx) hrefused
    · rintro (h | ⟨hname, h⟩ | ⟨hf, hx, hrefused⟩)
      · exact absurd hform h
      · exact absurd (honce _ hname) (Nat.not_le_of_lt h)
      · exact ⟨_, hf, _, (mem_given_iff hr (List.mem_map_of_mem hf)).mp hx, hrefused⟩

/-! ## What is read -/

/-- Every value that is read as something writes it. -/
def Writing.Covers {α : Type} (w : Writing α) (read? : Json → Option α) : Prop :=
  ∀ v x, read? v = some x → w x v

theorem Writing.text_covers : text.Covers text? := by
  intro v s h
  obtain ⟨s', rfl⟩ := holds_of_text h
  obtain rfl : s' = s := Option.some.inj h
  rfl

theorem Writing.optional_covers {α : Type} {w : Writing α} {read? : Json → Option α} (hw : w.Covers read?) :
    (optional w).Covers (optional? read?) := by
  intro v x h
  cases v with
  | null =>
    obtain rfl : none = x := Option.some.inj h
    exact .none
  | _ =>
    obtain ⟨y, hy, rfl⟩ := Option.map_eq_some_iff.mp h
    exact .some (hw _ _ hy)

/-- A field that is read is given. -/
theorem Record.given_of_getD {α : Type} {w : Writing α} {read? : Json → Option α} (hw : w.Covers read?) {default x : α}
    (h : r.getD? name default read? = some x) : (Field.ofDefault name default w x).given (r.get? name) := by
  cases hv : r.get? name with
  | none =>
    unfold getD? at h
    rw [hv] at h
    exact (Option.some.inj h).symm
  | some v => exact hw v x (read_of_getD h hv)

theorem Record.given_of_optionalText {s : Option Text} (h : r.optional? name Json.text? = some s) :
    (Field.optional name Writing.text s).given (r.get? name) :=
  given_of_getD (Writing.optional_covers Writing.text_covers) h

/-- Items that give each field by its place give the fields one after another, if there are not too many. -/
theorem Positional.of_given {fields : List Field} {items : List Json} (hnames : (fieldNames fields).Nodup)
    (hlen : items.length ≤ fields.length)
    (h : ∀ f ∈ fields, f.given (((fieldNames fields).zip items).lookup f.name)) : Positional fields items := by
  induction fields generalizing items with
  | nil => exact List.eq_nil_of_length_eq_zero (Nat.le_zero.mp hlen)
  | cons f fields ih =>
    have hcons : f.name ∉ fieldNames fields ∧ (fieldNames fields).Nodup := List.nodup_cons.mp hnames
    rw [List.forall_mem_cons] at h
    cases items with
    | nil =>
      refine ⟨by simpa using h.1, ih hcons.2 (Nat.zero_le _) ?_⟩
      simpa using h.2
    | cons v items =>
      refine ⟨by simpa [fieldNames] using h.1, ih hcons.2 (Nat.le_of_succ_le_succ hlen) fun g hg => ?_⟩
      have hne : g.name ≠ f.name := fun he => hcons.1 (he ▸ List.mem_map_of_mem hg)
      have hgiven : g.given (((f.name, v) :: (fieldNames fields).zip items).lookup g.name) := h.2 g hg
      rwa [lookup_cons_ne hne] at hgiven

/-- The members that are read as a record give its fields. -/
theorem named_of_record {extra : Json → Prop} {fields : List Field} {members : List (Text × Json)}
    (hr : record? (fieldNames fields) (ofMembers members) = some r) (hgiven : ∀ f ∈ fields, f.given (r.get? f.name))
    (hextra : ∀ p ∈ members, extra p.2) : Named extra fields members := by
  obtain ⟨hnodup, rfl⟩ := record_ofMembers_eq_some hr
  refine ⟨hnodup, fun f hf => ?_, fun p hp _ => hextra p hp⟩
  have hname : f.name ∈ fieldNames fields := List.mem_map_of_mem hf
  have hfield := hgiven f hf
  rwa [Record.get?, lookup_filter hname] at hfield

/-- **What is read as a record writes it.** -/
theorem writes_of_record {fields : List Field} (hnames : (fieldNames fields).Nodup)
    (hr : record? (fieldNames fields) v = some r) (hgiven : ∀ f ∈ fields, f.given (r.get? f.name)) :
    WritesRecord (fun _ => True) fields v := by
  have hform := hasForm_of_record hr
  cases v with
  | obj members =>
    obtain ⟨members, he⟩ := hform.exists_eq_ofMembers
    rw [he] at hr ⊢
    exact .object (named_of_record hr hgiven fun _ _ => trivial)
  | arr items =>
    obtain ⟨hlen, rfl⟩ := record_arr_eq_some hr
    exact .array (.of_given hnames (by simpa [fieldNames] using hlen) hgiven)
  | _ => cases hform

/-- What is read of a field that may be `null` comes from what is given for it: some property of the one is a property
of the other. -/
theorem exists_optional_iff {α : Type} {read? : Json → Option α} {x : Option α} {P : α → Prop} {Q : Json → Prop}
    (hr : record? names v = some r) (hname : name ∈ names) (h : r.optional? name read? = some x)
    (hPQ : ∀ w y, read? w = some y → (P y ↔ Q w)) (hnull : ¬ Q .null) :
    (∃ y, x = some y ∧ P y) ↔ ∃ w ∈ given names name v, Q w := by
  simp only [mem_given_iff hr hname]
  cases hw : r.get? name with
  | none =>
    unfold Record.optional? Record.getD? at h
    rw [hw] at h
    obtain rfl := Option.some.inj h
    simp
  | some w =>
    have hread := Record.read_of_getD h hw
    cases w with
    | null =>
      -- nothing is read of `null`, and it has not the property
      obtain rfl := Option.some.inj hread
      simp [hnull]
    | _ =>
      obtain ⟨y, hy, rfl⟩ := Option.map_eq_some_iff.mp hread
      simp [hPQ _ _ hy]

/-- A text is read of a field that may be `null` if it is given for it. -/
theorem eq_some_iff_text_mem_given {x : Option Text} (hr : record? names v = some r) (hname : name ∈ names)
    (h : r.optional? name text? = some x) (s : Text) : x = some s ↔ .str (some s) ∈ given names name v := by
  have hread : ∀ w y, text? w = some y → (y = s ↔ w = .str (some s)) := by
    intro w y hy
    obtain rfl := Writing.text_covers w y hy
    simp
  have hiff := exists_optional_iff (P := (· = s)) (Q := (· = .str (some s))) hr hname h hread Json.noConfusion
  simpa using hiff

end ApiReference.Json
