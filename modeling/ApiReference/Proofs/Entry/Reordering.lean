import ApiReference.Entry.Decode
import ApiReference.Proofs.Json.Shape

/-!
# Members of entries, in any order

Neither the order of the members of a document nor a member that is no field matters to the entries that are read of
it. What is a field of a tag depends on its topic, wherever the member `type` stands.
-/

namespace ApiReference

open Json (Ignores InField InItem Permuted ReadsRecord Str readsRecord_bind)

/-! ## Members that are no fields -/

/-- A tag with one member more that is no field of its kind. Its value is settled, as all that stands in a tag. -/
inductive Tag.Inserted : Json → Json → Prop
  | mk {kind : Text} {members members' : List (Str × Json)} (hkind : (some "type".toList, .str (some kind)) ∈ members)
      (h : Json.Inserted
        (fun name x => name ≠ "type".toList ∧ name ∉ (topicOf kind).shape.names ∧ x.settled (levels - 1))
        (.obj members) (.obj members')) : Inserted (.obj members) (.obj members')

/-- An entry with one member more that is no field, of its own or in one of its parts. -/
inductive Entry.Inserted : Json → Json → Prop
  | own {v v' : Json} (h : Json.Inserted (fun name _ => name ∉ names) v v') : Inserted v v'
  | tag {v v' : Json} (h : InField names "tags".toList (InItem Tag.Inserted) v v') : Inserted v v'
  | description {v v' : Json}
      (h : InField names "description".toList (Json.Inserted fun name _ => name ∉ Description.shape.names) v v') :
      Inserted v v'
  | subject {v v' : Json}
      (h : InField names "ctx".toList (Json.Inserted fun name _ => name ∉ Subject.shape.names) v v') : Inserted v v'

/-! ## Records -/

theorem Description.readsRecord : ReadsRecord shape.names (fun _ => Permuted) Description.ofJson? :=
  (Json.Shape.readsRecord shape).comp (Option.map ofValues)

theorem Subject.readsRecord : ReadsRecord shape.names (fun _ => Permuted) Subject.ofJson? :=
  (Json.Shape.readsRecord shape).comp (Option.map ofValues)

/-! ## Tags -/

namespace Tag

/-- A tag of a given kind is read from its fields. -/
theorem readsRecord_ofKind (kind : Text) :
    ReadsRecord (topicOf kind).shape.names (fun _ => Permuted) (ofKind? kind) :=
  (Json.Shape.readsRecord _).comp (Option.map (ofValues (topicOf kind)))

/-- Whether a member gives the kind of a tag. -/
def isType (p : Str × Json) : Bool :=
  p.1 = some "type".toList

/-- The values that are given for the kind of a tag. -/
def typeValues (members : List (Str × Json)) : List Json :=
  (members.filter isType).map Prod.snd

/-- The members of a tag besides its kind. -/
def withoutType (members : List (Str × Json)) : List (Str × Json) :=
  members.filter fun p => !isType p

/-- The text of the one value given for the kind of a tag, if it is one. -/
def onlyKind? : List Json → Option Text
  | [x] => Json.text? x
  | _ => none

theorem split_obj (members : List (Str × Json)) :
    split? (.obj members) = (onlyKind? (typeValues members)).map fun kind => (kind, .obj (withoutType members)) := by
  have hpart : members.partition (fun p => decide (p.1 = some "type".toList)) =
      (members.filter isType, withoutType members) := List.partition_eq_filter_filter ..
  rw [split?, hpart, typeValues]
  rcases members.filter isType with _ | ⟨⟨key, x⟩, _ | ⟨q, rest⟩⟩
  · rfl
  · cases x with
    | str s => cases s <;> rfl
    | _ => rfl
  · cases x with
    | str s => cases s <;> rfl
    | _ => rfl

theorem split_arr (x : Json) (items : List Json) :
    split? (.arr (x :: items)) = (Json.text? x).map fun kind => (kind, .arr items) := by
  cases x with
  | str s => cases s <;> rfl
  | _ => rfl

theorem onlyKind_permuted {xs ys zs : List Json} (h : List.Forall₂ Permuted xs ys) (horder : ys.Perm zs) :
    onlyKind? xs = onlyKind? zs := by
  match xs, ys, h with
  | [], _, .nil =>
    rw [List.nil_perm.mp horder]
  | [x], _, .cons hx .nil =>
    rw [← List.singleton_perm.mp horder]
    exact Json.permuted_text x _ hx
  | x :: x' :: xs, y :: y' :: ys, .cons _ (.cons _ _) =>
    -- two values or more give no kind in any order
    match zs, horder.length_eq with
    | z :: z' :: zs, _ => rfl

/-- The order of members does not matter to the kind of a tag, nor to its other members but for their own order. -/
theorem split_permuted {v v' : Json} (h : Permuted v v') :
    Option.Rel (fun p q => p.1 = q.1 ∧ Permuted p.2 q.2) (split? v) (split? v') := by
  have hmap : ∀ {kind? kind?' : Option Text} {w w' : Json}, kind? = kind?' → Permuted w w' →
      Option.Rel (fun p q => p.1 = q.1 ∧ Permuted p.2 q.2) (kind?.map (·, w)) (kind?'.map (·, w')) := by
    rintro (_ | kind) _ w w' rfl hw
    · exact .none
    · exact .some ⟨rfl, hw⟩
  cases h with
  | same =>
    cases split? v with
    | none => exact .none
    | some p => exact .some ⟨rfl, .same _⟩
  | arr h =>
    cases h with
    | nil => exact .none
    | cons hx h =>
      rw [split_arr, split_arr]
      exact hmap (Json.permuted_text _ _ hx) (.arr h)
  | @obj members middle members' hkeys hvalues horder =>
    have hfilter (f : Bool → Bool) : List.Forall₂ (fun p q => p.1 = q.1 ∧ Permuted p.2 q.2)
        (members.filter fun p => f (isType p)) (middle.filter fun p => f (isType p)) := by
      refine List.rel_filter ?_ (Json.forall₂_members hkeys hvalues)
      intro p q hp
      simp only [isType, hp.1]
    have htypes : List.Forall₂ Permuted (typeValues members) (typeValues middle) := by
      rw [typeValues, typeValues, List.forall₂_map_left_iff, List.forall₂_map_right_iff]
      exact (hfilter id).imp fun _ _ hp => hp.2
    rw [split_obj, split_obj]
    exact hmap (onlyKind_permuted htypes ((horder.filter _).map _)) (.of_members (hfilter not) (horder.filter _))

theorem ofJson_eq_bind (v : Json) :
    ofJson? v = if v.settled levels then (split? v).bind fun p => ofKind? p.1 p.2 else none := by
  unfold ofJson?
  by_cases h : v.settled levels = true
  · rw [h]
    rfl
  · rw [Bool.not_eq_true] at h
    rw [h]
    rfl

theorem permuted : Ignores Permuted ofJson? := by
  intro v v' h
  rw [ofJson_eq_bind, ofJson_eq_bind, Json.settled_permuted h]
  have hread := Json.bind_eq_of_rel (split_permuted h) (f := fun p => ofKind? p.1 p.2) (g := fun p => ofKind? p.1 p.2)
    fun p p' hp => by rw [hp.1, (readsRecord_ofKind p'.1).permuted p.2 p'.2 hp.2]
  rw [hread]

theorem onlyKind_eq_of_mem {xs : List Json} {k kind : Text} (h : onlyKind? xs = some k)
    (hmem : Json.str (some kind) ∈ xs) : k = kind := by
  match xs with
  | [x] =>
    rw [List.mem_singleton] at hmem
    subst hmem
    exact (Option.some.inj h).symm

/-- A member that is no field of the kind of the tag does not matter to the tag. -/
theorem inserted : Ignores Tag.Inserted ofJson? := by
  rintro _ _ @⟨kind, members, members', hkind, h⟩
  obtain @⟨name, x, ⟨htype, hname, hx⟩, front, last⟩ := h
  have hkey : isType (some name, x) = false := decide_eq_false fun he => htype (Option.some.inj he)
  have hsettled : (Json.obj (front ++ last)).settled levels =
      (Json.obj (front ++ (some name, x) :: last)).settled levels := Json.settled_insert (by decide) hx front last
  have htypes : typeValues (front ++ (some name, x) :: last) = typeValues (front ++ last) := by
    rw [typeValues, typeValues, List.filter_append, List.filter_append, List.filter_cons_of_neg (by simp [hkey])]
  have hinserted : Json.Inserted (fun name _ => name ∉ (topicOf kind).shape.names) (.obj (withoutType (front ++ last)))
      (.obj (withoutType (front ++ (some name, x) :: last))) := by
    rw [withoutType, withoutType, List.filter_append, List.filter_append, List.filter_cons_of_pos (by simp [hkey])]
    exact .mk hname _ _
  have hmem : Json.str (some kind) ∈ typeValues (front ++ last) :=
    List.mem_map.mpr ⟨_, List.mem_filter.mpr ⟨hkind, decide_eq_true rfl⟩, rfl⟩
  rw [ofJson_eq_bind, ofJson_eq_bind, hsettled, split_obj, split_obj, htypes]
  cases hk : onlyKind? (typeValues (front ++ last)) with
  | none => rfl
  | some k =>
    rw [onlyKind_eq_of_mem hk hmem, Option.map_some, Option.map_some, Option.bind_some, Option.bind_some,
      (readsRecord_ofKind kind).inserted _ _ hinserted]

end Tag

/-! ## Entries -/

namespace Entry

/-- An entry is read from its fields, each of which may differ in a way that its own reader ignores. -/
theorem readsRecord {R : Text → Json → Json → Prop}
    (htags : Ignores (R "tags".toList) (Json.list? Tag.ofJson?))
    (hdescription : Ignores (R "description".toList) (Json.optional? Description.ofJson?))
    (hsubject : Ignores (R "ctx".toList) (Json.optional? Subject.ofJson?)) : ReadsRecord names R ofJson? := by
  refine readsRecord_bind fun r r' h => ?_
  rw [h.list htags, h.optional hdescription, h.optional hsubject]

theorem readsRecord_permuted : ReadsRecord names (fun _ => Permuted) ofJson? :=
  readsRecord (Json.permuted_list Tag.permuted) (Json.permuted_optional Description.readsRecord.permuted)
    (Json.permuted_optional Subject.readsRecord.permuted)

/-- A member that is no field, of an entry or of one of its parts, does not matter to the entry. -/
theorem inserted : Ignores Entry.Inserted ofJson? := by
  intro v v' h
  cases h with
  | own h => exact readsRecord_permuted.inserted v v' h
  | tag h =>
    have hread := readsRecord (R := Json.At "tags".toList (InItem Tag.Inserted)) (.at_same Tag.inserted.inItem)
      (.at_other (by decide)) (.at_other (by decide))
    exact hread.inField v v' h
  | description h =>
    have hread := readsRecord (R := Json.At "description".toList _) (.at_other (by decide))
      (.at_same Description.readsRecord.inserted.optional_inserted) (.at_other (by decide))
    exact hread.inField v v' h
  | subject h =>
    have hread := readsRecord (R := Json.At "ctx".toList _) (.at_other (by decide)) (.at_other (by decide))
      (.at_same Subject.readsRecord.inserted.optional_inserted)
    exact hread.inField v v' h

end Entry

end ApiReference
