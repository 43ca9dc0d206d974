import ApiReference.Json.Record
import Mathlib.Data.List.Forall2

/-!
# Ways of writing a value

Something of a type may be written by several JSON values (`Writing`). Text and booleans are written in one way each. A
record is written as an object with its members in any order or as an array (`WritesRecord`), and each of its fields is
given in some way or left out (`Field`). Of each value one way is chosen (`ofText`, `ofTexts`, `ofOption`).

- `getD_of_given`: a field is read as what it was written for, if its type is (`Writing.ReadBy`);
- `record_of_writes`: the fields of a record are found in both forms;
- `Positional.settled`, `Named.settled`: a record is settled if its fields are.
-/

namespace ApiReference.Json

/-! ## Writings -/

/-- Which values write what is of a type. -/
abbrev Writing (α : Type) := α → Json → Prop

namespace Writing

/-- A text is written as a string. -/
def text : Writing Text :=
  fun s v => v = .str (some s)

/-- A boolean is written as such. -/
def flag : Writing Bool :=
  fun b v => v = .bool b

/-- A list is written as an array of its items, each in some way. -/
inductive list {α : Type} (w : Writing α) : Writing (List α)
  | items {xs : List α} {vs : List Json} (h : List.Forall₂ w xs vs) : list w xs (.arr vs)

/-- What may be missing is written as `null` if it is. -/
inductive optional {α : Type} (w : Writing α) : Writing (Option α)
  | none : optional w none .null
  | some {x : α} {v : Json} (h : w x v) : optional w (some x) v

theorem list_map {α : Type} {w : Writing α} {toJson : α → Json} (h : ∀ x, w x (toJson x)) (xs : List α) :
    list w xs (.arr (xs.map toJson)) :=
  .items (List.forall₂_map_right_iff.mpr (List.forall₂_same.mpr fun x _ => h x))

/-- Every value that writes something is read as such. -/
def ReadBy {α : Type} (w : Writing α) (read? : Json → Option α) : Prop :=
  ∀ x v, w x v → read? v = some x

theorem text_readBy : text.ReadBy text? := by
  rintro s v rfl
  rfl

theorem not_text_null (s : Text) : ¬ text s .null :=
  Json.noConfusion

theorem flag_readBy : flag.ReadBy flag? := by
  rintro b v rfl
  rfl

theorem list_readBy {α : Type} {w : Writing α} {read? : Json → Option α} (hw : w.ReadBy read?) :
    (list w).ReadBy (list? read?) := by
  rintro xs v ⟨h⟩
  show List.mapM read? _ = some xs
  induction h with
  | nil => rfl
  | cons hx _ ih => simp [hw _ _ hx, ih]

/-- What is missing is told from what is not, since only the first is written as `null`. -/
theorem optional_readBy {α : Type} {w : Writing α} {read? : Json → Option α} (hw : w.ReadBy read?)
    (hnull : ∀ x, ¬ w x .null) : (optional w).ReadBy (optional? read?) := by
  rintro x v h
  cases h with
  | none => rfl
  | some h =>
    cases v with
    | null => exact absurd h (hnull _)
    | _ => simp [optional?, hw _ _ h]

end Writing

/-! ## Values that write -/

/-- A text as a string. -/
def ofText (s : Text) : Json :=
  .str (some s)

/-- A list of texts as an array. -/
def ofTexts (xs : List Text) : Json :=
  .arr (xs.map ofText)

/-- A value, or `null`. -/
def ofOption {α : Type} (toJson : α → Json) : Option α → Json
  | none => .null
  | some x => toJson x

theorem text_writes_ofText (s : Text) : Writing.text s (ofText s) :=
  rfl

theorem list_writes_ofTexts (xs : List Text) : Writing.list Writing.text xs (ofTexts xs) :=
  Writing.list_map text_writes_ofText xs

theorem optional_writes_ofOption {α : Type} {w : Writing α} {toJson : α → Json} (h : ∀ x, w x (toJson x))
    (x : Option α) : Writing.optional w x (ofOption toJson x) := by
  cases x with
  | none => exact .none
  | some x => exact .some (h x)

/-! ## Fields -/

/-- A field of a record: its name, and whether a value given for it, or none, is right for the record. -/
structure Field where
  name : Text
  given : Option Json → Prop

/-- A field that may be left out if it has its default. -/
def Field.ofDefault {α : Type} (name : Text) (default : α) (w : Writing α) (x : α) : Field where
  name := name
  given
    | none => x = default
    | some v => w x v

namespace Field

/-- A field of text. -/
def text (name s : Text) : Field :=
  ofDefault name [] Writing.text s

/-- A boolean field. -/
def flag (name : Text) (b : Bool) : Field :=
  ofDefault name false Writing.flag b

/-- A field that is a list. -/
def list {α : Type} (name : Text) (w : Writing α) (xs : List α) : Field :=
  ofDefault name [] (Writing.list w) xs

/-- A field that may be `null`. -/
def optional {α : Type} (name : Text) (w : Writing α) (x : Option α) : Field :=
  ofDefault name none (Writing.optional w) x

end Field

/-- A field is read as what it was written for. -/
theorem Record.getD_of_given {α : Type} {w : Writing α} {read? : Json → Option α} (hw : w.ReadBy read?) {r : Record}
    {name : Text} {default x : α} (h : (Field.ofDefault name default w x).given (r.get? name)) :
    r.getD? name default read? = some x := by
  unfold getD?
  cases hv : r.get? name with
  | none =>
    rw [hv] at h
    have hx : x = default := h
    rw [hx]
  | some v =>
    rw [hv] at h
    exact hw x v h

theorem Record.text_of_given {r : Record} {name s : Text} (h : (Field.text name s).given (r.get? name)) :
    r.text? name = some s :=
  getD_of_given Writing.text_readBy h

theorem Record.flag_of_given {r : Record} {name : Text} {b : Bool} (h : (Field.flag name b).given (r.get? name)) :
    r.flag? name = some b :=
  getD_of_given Writing.flag_readBy h

theorem Record.list_of_given {α : Type} {w : Writing α} {read? : Json → Option α} (hw : w.ReadBy read?) {r : Record}
    {name : Text} {xs : List α} (h : (Field.list name w xs).given (r.get? name)) : r.list? name read? = some xs :=
  getD_of_given (Writing.list_readBy hw) h

theorem Record.optional_of_given {α : Type} {w : Writing α} {read? : Json → Option α} (hw : w.ReadBy read?)
    (hnull : ∀ x, ¬ w x .null) {r : Record} {name : Text} {x : Option α}
    (h : (Field.optional name w x).given (r.get? name)) : r.optional? name read? = some x :=
  getD_of_given (Writing.optional_readBy hw hnull) h

theorem Record.optionalText_of_given {r : Record} {name : Text} {s : Option Text}
    (h : (Field.optional name Writing.text s).given (r.get? name)) : r.optional? name Json.text? = some s :=
  optional_of_given Writing.text_readBy Writing.not_text_null h

/-! ## Records -/

/-- The names of some fields. -/
def fieldNames (fields : List Field) : List Text :=
  fields.map Field.name

/-- Items that give the fields one after another. The last fields may be left out. -/
def Positional : List Field → List Json → Prop
  | [], items => items = []
  | f :: fields, [] => f.given none ∧ Positional fields []
  | f :: fields, v :: items => f.given (some v) ∧ Positional fields items

/-- Members that give the fields in any order. No field is given twice; members that are no fields may have the values
that `extra` allows. -/
structure Named (extra : Json → Prop) (fields : List Field) (members : List (Text × Json)) : Prop where
  nodup : ((members.filter (·.1 ∈ fieldNames fields)).map (·.1)).Nodup
  given : ∀ f ∈ fields, f.given (members.lookup f.name)
  extra : ∀ p ∈ members, p.1 ∉ fieldNames fields → extra p.2

/-- An object whose keys are text. -/
def ofMembers (members : List (Text × Json)) : Json :=
  .obj (members.map fun p => (some p.1, p.2))

/-- A record is written as an object or as an array. -/
inductive WritesRecord (extra : Json → Prop) (fields : List Field) : Json → Prop
  | object {members : List (Text × Json)} (h : Named extra fields members) :
      WritesRecord extra fields (ofMembers members)
  | array {items : List Json} (h : Positional fields items) : WritesRecord extra fields (.arr items)

theorem not_writesRecord_null {extra : Json → Prop} {fields : List Field} : ¬ WritesRecord extra fields .null := by
  intro h
  cases h

theorem textKeys_map (members : List (Text × Json)) :
    textKeys? (members.map fun p => (some p.1, p.2)) = some members := by
  unfold textKeys?
  induction members with
  | nil => rfl
  | cons p members ih => simp [ih]

theorem guard_of_pos {p : Prop} [Decidable p] (h : p) : (guard p : Option Unit) = some () :=
  if_pos h

theorem record_ofMembers {names : List Text} {members : List (Text × Json)}
    (h : ((members.filter (·.1 ∈ names)).map (·.1)).Nodup) :
    record? names (ofMembers members) = some ⟨members.filter (·.1 ∈ names)⟩ := by
  show Option.bind (textKeys? (members.map fun p => (some p.1, p.2))) _ = _
  rw [textKeys_map, Option.bind_some]
  show Option.bind (guard _) _ = _
  rw [guard_of_pos h, Option.bind_some]

theorem record_arr {names : List Text} {items : List Json} (h : items.length ≤ names.length) :
    record? names (.arr items) = some ⟨names.zip items⟩ := by
  show Option.bind (guard _) _ = _
  rw [guard_of_pos h, Option.bind_some]

theorem lookup_cons_ne {name key : Text} (h : name ≠ key) (v : Json) (members : List (Text × Json)) :
    ((key, v) :: members).lookup name = members.lookup name := by
  rw [List.lookup_cons, beq_false_of_ne h]

theorem lookup_filter {names : List Text} {name : Text} (h : name ∈ names) (members : List (Text × Json)) :
    (members.filter (·.1 ∈ names)).lookup name = members.lookup name := by
  induction members with
  | nil => rfl
  | cons p members ih =>
    obtain ⟨key, v⟩ := p
    by_cases hkey : name = key
    · subst hkey
      simp [h]
    · by_cases hmem : key ∈ names
      · simp [hmem, lookup_cons_ne hkey, ih]
      · simp [hmem, lookup_cons_ne hkey, ih]

theorem lookup_of_mem {members : List (Text × Json)} (h : (members.map (·.1)).Nodup) {p : Text × Json}
    (hp : p ∈ members) : members.lookup p.1 = some p.2 := by
  induction members with
  | nil => simp at hp
  | cons q members ih =>
    obtain ⟨key, v⟩ := q
    rw [List.map_cons, List.nodup_cons] at h
    rcases List.mem_cons.mp hp with rfl | hp
    · simp
    · have hne : p.1 ≠ key := by
        intro he
        exact h.1 (List.mem_map.mpr ⟨p, hp, he⟩)
      rw [lookup_cons_ne hne, ih h.2 hp]

/-- The items of an array give each field by its place. -/
theorem Positional.given {fields : List Field} {items : List Json} (h : Positional fields items)
    (hnames : (fieldNames fields).Nodup) :
    items.length ≤ fields.length ∧ ∀ f ∈ fields, f.given (((fieldNames fields).zip items).lookup f.name) := by
  induction fields generalizing items with
  | nil =>
    have hitems : items = [] := h
    simp [hitems]
  | cons f fields ih =>
    have hcons : f.name ∉ fieldNames fields ∧ (fieldNames fields).Nodup := List.nodup_cons.mp hnames
    cases items with
    | nil =>
      obtain ⟨hlen, hrest⟩ := ih h.2 hcons.2
      refine ⟨Nat.zero_le _, List.forall_mem_cons.mpr ⟨by simpa using h.1, ?_⟩⟩
      simpa using hrest
    | cons v items =>
      obtain ⟨hlen, hrest⟩ := ih h.2 hcons.2
      refine ⟨Nat.succ_le_succ hlen, List.forall_mem_cons.mpr ⟨?_, fun g hg => ?_⟩⟩
      · simpa [fieldNames] using h.1
      · have hne : g.name ≠ f.name := fun he => hcons.1 (he ▸ List.mem_map_of_mem hg)
        show g.given (((f.name, v) :: (fieldNames fields).zip items).lookup g.name)
        rw [lookup_cons_ne hne]
        exact hrest g hg

/-- **The fields of a record are found**, in an object as in an array. -/
theorem record_of_writes {extra : Json → Prop} {fields : List Field} {v : Json} (h : WritesRecord extra fields v)
    (hnames : (fieldNames fields).Nodup) :
    ∃ r, record? (fieldNames fields) v = some r ∧ ∀ f ∈ fields, f.given (r.get? f.name) := by
  cases h with
  | object h =>
    rename_i members
    refine ⟨⟨members.filter (·.1 ∈ fieldNames fields)⟩, ?_, fun f hf => ?_⟩
    · exact record_ofMembers h.nodup
    · have hname : f.name ∈ fieldNames fields := List.mem_map_of_mem hf
      rw [Record.get?, lookup_filter hname]
      exact h.given f hf
  | array h =>
    rename_i items
    obtain ⟨hlen, hgiven⟩ := h.given hnames
    have hlen' : items.length ≤ (fieldNames fields).length := by simpa [fieldNames] using hlen
    exact ⟨⟨(fieldNames fields).zip items⟩, record_arr hlen', hgiven⟩

/-- Members that give all fields one after another give them by name. -/
theorem Positional.named {extra : Json → Prop} {fields : List Field} {members : List (Text × Json)}
    (h : Positional fields (members.map (·.2))) (hfst : members.map (·.1) = fieldNames fields)
    (hnames : (fieldNames fields).Nodup) : Named extra fields members := by
  have hmem : ∀ p ∈ members, p.1 ∈ fieldNames fields := fun p hp => hfst ▸ List.mem_map_of_mem hp
  have hzip : members = (fieldNames fields).zip (members.map (·.2)) := List.zip_of_prod hfst rfl
  refine ⟨?_, ?_, fun p hp hn => absurd (hmem p hp) hn⟩
  · rw [List.filter_eq_self.mpr fun p hp => decide_eq_true (hmem p hp), hfst]
    exact hnames
  · rw [hzip]
    exact (h.given hnames).2

/-! ## Settled records -/

/-- The values that may be given for a field are settled. -/
def Field.Settled (levels : Nat) (f : Field) : Prop :=
  ∀ v, f.given (some v) → v.settled levels

theorem Field.settled_text (levels : Nat) (name s : Text) : (Field.text name s).Settled levels := by
  rintro v rfl
  cases levels <;> rfl

theorem Field.settled_flag (levels : Nat) (name : Text) (b : Bool) : (Field.flag name b).Settled levels := by
  rintro v rfl
  cases levels <;> rfl

/-- A list of texts is one level of arrays. -/
theorem Field.settled_texts (levels : Nat) (name : Text) (xs : List Text) :
    (Field.list name Writing.text xs).Settled (levels + 1) := by
  rintro v ⟨h⟩
  show List.all _ (settled levels) = true
  induction h with
  | nil => rfl
  | cons hx _ ih =>
    have hv : settled levels _ = true := Field.settled_text levels name _ _ hx
    rw [List.all_cons, hv, ih]
    rfl

theorem Positional.settled {levels : Nat} {fields : List Field} {items : List Json} (h : Positional fields items)
    (hfields : ∀ f ∈ fields, f.Settled levels) : items.all (settled levels) := by
  induction fields generalizing items with
  | nil =>
    have hitems : items = [] := h
    rw [hitems]
    rfl
  | cons f fields ih =>
    cases items with
    | nil => rfl
    | cons v items =>
      rw [List.forall_mem_cons] at hfields
      rw [List.all_cons, hfields.1 v h.1, ih h.2 hfields.2]
      rfl

theorem Named.settled {levels : Nat} {fields : List Field} {members : List (Text × Json)}
    (h : Named (fun v => v.settled levels) fields members) (hfields : ∀ f ∈ fields, f.Settled levels) :
    ∀ p ∈ members, p.2.settled levels := by
  intro p hp
  by_cases hname : p.1 ∈ fieldNames fields
  · -- no field is given twice, so the member is the one that gives its field
    obtain ⟨f, hf, hfname⟩ := List.mem_map.mp hname
    have hknown : p ∈ members.filter (·.1 ∈ fieldNames fields) :=
      List.mem_filter.mpr ⟨hp, decide_eq_true hname⟩
    have hlookup := lookup_of_mem h.nodup hknown
    rw [lookup_filter hname] at hlookup
    have hgiven := h.given f hf
    rw [hfname, hlookup] at hgiven
    exact hfields f hf p.2 hgiven
  · exact h.extra p hp hname

theorem settled_ofMembers_iff {levels : Nat} {members : List (Text × Json)} :
    (ofMembers members).settled (levels + 1) ↔ ∀ p ∈ members, p.2.settled levels := by
  show List.all _ _ = true ↔ _
  rw [List.all_map, List.all_eq_true]
  exact Iff.rfl

end ApiReference.Json
