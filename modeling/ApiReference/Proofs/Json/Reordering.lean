import ApiReference.Json.Record
import Mathlib.Data.List.Forall2

/-!
# What a reader of records does not see

A record is found by the names of its fields, so neither the order of members nor a member that is no field matters to
what is read of it.

- `Permuted`: two values that differ in the order of members only, at any depth (`settled_permuted`);
- `Inserted`, `InField`, `InItem`: one member more in an object, and a change further inside;
- `record_permuted`, `record_inserted`, `record_inField`: the records of two such values have fields that are alike;
- a reader ignores a difference (`Ignores`) if it reads a record (`ReadsRecord`) and each of its fields is read by a
  reader that ignores the difference there.
-/

namespace ApiReference.Json

/-! ## Values that differ -/

/-- Two values that differ in the order of the members of their objects only, at any depth. -/
inductive Permuted : Json → Json → Prop
  | same (v : Json) : Permuted v v
  | arr {items items' : List Json} (h : List.Forall₂ Permuted items items') : Permuted (.arr items) (.arr items')
  | obj {members middle members' : List (Str × Json)} (hkeys : members.map Prod.fst = middle.map Prod.fst)
      (hvalues : List.Forall₂ Permuted (members.map Prod.snd) (middle.map Prod.snd))
      (horder : middle.Perm members') : Permuted (.obj members) (.obj members')

/-- The second value is an object with one member more, whose name and value are allowed. -/
inductive Inserted (allowed : Text → Json → Prop) : Json → Json → Prop
  | mk {name : Text} {x : Json} (h : allowed name x) (front last : List (Str × Json)) :
      Inserted allowed (.obj (front ++ last)) (.obj (front ++ (some name, x) :: last))

/-- Two records, both objects or both arrays, that differ in the field `name` only. -/
inductive InField (names : List Text) (name : Text) (R : Json → Json → Prop) : Json → Json → Prop
  | member {x x' : Json} (h : R x x') (front last : List (Str × Json)) :
      InField names name R (.obj (front ++ (some name, x) :: last)) (.obj (front ++ (some name, x') :: last))
  | item {x x' : Json} (h : R x x') {front : List Json} (hname : names[front.length]? = some name)
      (last : List Json) : InField names name R (.arr (front ++ x :: last)) (.arr (front ++ x' :: last))

/-- Two arrays that differ in one item only. -/
inductive InItem (R : Json → Json → Prop) : Json → Json → Prop
  | mk {x x' : Json} (h : R x x') (front last : List Json) :
      InItem R (.arr (front ++ x :: last)) (.arr (front ++ x' :: last))

/-! ## Readers that do not see it -/

/-- What a reader gives is the same for any two related values. -/
def Ignores {α : Type} (R : Json → Json → Prop) (read? : Json → Option α) : Prop :=
  ∀ v v', R v v' → read? v = read? v'

/-- Text, booleans and lists are no objects. -/
theorem permuted_text : Ignores Permuted text? := by
  intro v v' h
  cases h <;> rfl

theorem permuted_flag : Ignores Permuted flag? := by
  intro v v' h
  cases h <;> rfl

theorem mapM_forall₂ {α : Type} {R : Json → Json → Prop} {read? : Json → Option α} (hread : Ignores R read?)
    {items items' : List Json} (h : List.Forall₂ R items items') : items.mapM read? = items'.mapM read? := by
  induction h with
  | nil => rfl
  | cons hx _ ih => rw [List.mapM_cons, List.mapM_cons, hread _ _ hx, ih]

theorem permuted_list {α : Type} {read? : Json → Option α} (hread : Ignores Permuted read?) :
    Ignores Permuted (list? read?) := by
  intro v v' h
  cases h with
  | same => rfl
  | arr h => exact mapM_forall₂ hread h
  | obj => rfl

theorem permuted_optional {α : Type} {read? : Json → Option α} (hread : Ignores Permuted read?) :
    Ignores Permuted (optional? read?) := by
  intro v v' h
  have hv := hread v v' h
  cases h with
  | same => rfl
  | arr => exact congrArg (Option.map some) hv
  | obj => exact congrArg (Option.map some) hv

theorem Ignores.inItem {α : Type} {R : Json → Json → Prop} {read? : Json → Option α} (hread : Ignores R read?) :
    Ignores (InItem R) (list? read?) := by
  rintro _ _ ⟨h, front, last⟩
  show List.mapM read? _ = List.mapM read? _
  rw [List.mapM_append, List.mapM_append, List.mapM_cons, List.mapM_cons, hread _ _ h]

/-- A value that is not `null` is read as such where `null` is allowed. -/
theorem Ignores.optional {α : Type} {R : Json → Json → Prop} {read? : Json → Option α} (hread : Ignores R read?)
    (hnull : ∀ v v', R v v' → v ≠ .null ∧ v' ≠ .null) : Ignores R (optional? read?) := by
  have hsome : ∀ v : Json, v ≠ .null → optional? read? v = (read? v).map some := by
    intro v hv
    cases v with
    | null => exact absurd rfl hv
    | _ => rfl
  intro v v' h
  rw [hsome v (hnull v v' h).1, hsome v' (hnull v v' h).2, hread v v' h]

theorem Ignores.optional_inserted {α : Type} {allowed : Text → Json → Prop} {read? : Json → Option α}
    (hread : Ignores (Inserted allowed) read?) : Ignores (Inserted allowed) (optional? read?) := by
  refine hread.optional ?_
  rintro _ _ ⟨h, front, last⟩
  exact ⟨Json.noConfusion, Json.noConfusion⟩

/-! ## Settled values -/

theorem forall₂_members {members middle : List (Str × Json)} (hkeys : members.map Prod.fst = middle.map Prod.fst)
    (hvalues : List.Forall₂ Permuted (members.map Prod.snd) (middle.map Prod.snd)) :
    List.Forall₂ (fun p q => p.1 = q.1 ∧ Permuted p.2 q.2) members middle := by
  induction members generalizing middle with
  | nil =>
    cases middle with
    | nil => exact .nil
    | cons q middle => simp at hkeys
  | cons p members ih =>
    cases middle with
    | nil => simp at hkeys
    | cons q middle =>
      rw [List.map_cons, List.map_cons, List.cons.injEq] at hkeys
      rw [List.map_cons, List.map_cons, List.forall₂_cons] at hvalues
      exact .cons ⟨hkeys.1, hvalues.1⟩ (ih hkeys.2 hvalues.2)

theorem Permuted.of_members {members middle members' : List (Str × Json)}
    (h : List.Forall₂ (fun p q => p.1 = q.1 ∧ Permuted p.2 q.2) members middle) (horder : middle.Perm members') :
    Permuted (.obj members) (.obj members') := by
  refine .obj ?_ ?_ horder
  · rw [← List.forall₂_eq_eq_eq, List.forall₂_map_left_iff, List.forall₂_map_right_iff]
    exact h.imp fun _ _ hp => hp.1
  · rw [List.forall₂_map_left_iff, List.forall₂_map_right_iff]
    exact h.imp fun _ _ hp => hp.2

/-- The order of members does not matter to whether a value is settled. -/
theorem settled_permuted {levels : Nat} {v v' : Json} (h : Permuted v v') : v.settled levels = v'.settled levels := by
  induction levels generalizing v v' with
  | zero => cases h <;> rfl
  | succ levels ih =>
    cases h with
    | same => rfl
    | arr h =>
      show List.all _ _ = List.all _ _
      induction h with
      | nil => rfl
      | cons hx _ ihs => rw [List.all_cons, List.all_cons, ih hx, ihs]
    | obj hkeys hvalues horder =>
      show List.all _ _ = List.all _ _
      rw [← horder.all_eq]
      have h := forall₂_members hkeys hvalues
      clear hkeys hvalues horder
      induction h with
      | nil => rfl
      | @cons p q _ _ hp _ ihs =>
        rw [List.all_cons, List.all_cons, ihs]
        show (p.1.isSome && settled levels p.2 && _) = (q.1.isSome && settled levels q.2 && _)
        rw [hp.1, ih hp.2]

/-- A settled member more does not matter to whether an object is settled. -/
theorem settled_insert {levels : Nat} {name : Text} {x : Json} (hlevels : 0 < levels) (hx : x.settled (levels - 1))
    (front last : List (Str × Json)) :
    settled levels (.obj (front ++ last)) = settled levels (.obj (front ++ (some name, x) :: last)) := by
  obtain ⟨levels, rfl⟩ := Nat.exists_eq_add_of_lt hlevels
  rw [Nat.zero_add] at hx ⊢
  show List.all _ _ = List.all _ _
  rw [List.all_append, List.all_append, List.all_cons]
  have hx : settled levels x = true := hx
  simp [hx]

/-! ## The fields of a record -/

/-- The members that are fields. -/
def knownMembers (names : List Text) (members : List (Str × Json)) : List (Text × Json) :=
  members.filterMap fun p => p.1.bind fun key => if names.contains key then some (key, p.2) else none

theorem textKeys_eq_ite (members : List (Str × Json)) :
    textKeys? members =
      if ∀ p ∈ members, p.1.isSome then some (members.filterMap fun p => p.1.map (·, p.2)) else none := by
  unfold textKeys?
  induction members with
  | nil => rfl
  | cons p members ih =>
    obtain ⟨key, x⟩ := p
    cases key with
    | none => simp
    | some key =>
      rw [List.mapM_cons, ih]
      by_cases h : ∀ p ∈ members, p.1.isSome
      · have hcons : ∀ p ∈ (some key, x) :: members, p.1.isSome := List.forall_mem_cons.mpr ⟨rfl, h⟩
        rw [if_pos h, if_pos hcons]
        rfl
      · have hcons : ¬ ∀ p ∈ (some key, x) :: members, p.1.isSome := fun hcons => h (List.forall_mem_cons.mp hcons).2
        rw [if_neg h, if_neg hcons]
        rfl

/-- An object is a record if its keys are text and no field is given twice. -/
theorem record_obj (names : List Text) (members : List (Str × Json)) :
    record? names (.obj members) =
      if (∀ p ∈ members, p.1.isSome) ∧ ((knownMembers names members).map Prod.fst).Nodup then
        some ⟨knownMembers names members⟩
      else none := by
  have hknown : (members.filterMap fun p => p.1.map (·, p.2)).filter (·.1 ∈ names) = knownMembers names members := by
    rw [List.filter_filterMap]
    refine List.filterMap_congr fun p _ => ?_
    cases p.1 with
    | none => rfl
    | some key => by_cases h : key ∈ names <;> simp [h]
  show Option.bind (textKeys? members) _ = _
  rw [textKeys_eq_ite]
  by_cases hkeys : ∀ p ∈ members, p.1.isSome
  · rw [if_pos hkeys, Option.bind_some, hknown]
    by_cases hnodup : ((knownMembers names members).map Prod.fst).Nodup
    · rw [if_pos ⟨hkeys, hnodup⟩]
      show Option.bind (if _ then _ else _) _ = _
      rw [if_pos hnodup]
      rfl
    · rw [if_neg fun h => hnodup h.2]
      show Option.bind (if _ then _ else _) _ = _
      rw [if_neg hnodup]
      rfl
  · rw [if_neg hkeys, if_neg fun h => hkeys h.1, Option.bind_none]

/-- An array is a record if it has no more items than there are fields. -/
theorem record_arr_eq_ite (names : List Text) (items : List Json) :
    record? names (.arr items) = if items.length ≤ names.length then some ⟨names.zip items⟩ else none := by
  show Option.bind (if _ then _ else _) _ = _
  by_cases hle : items.length ≤ names.length
  · rw [if_pos hle, if_pos hle]
    rfl
  · rw [if_neg hle, if_neg hle]
    rfl

/-- Two records whose fields are related one by one, each in its own way. -/
def Record.Alike (R : Text → Json → Json → Prop) (r r' : Record) : Prop :=
  ∀ name, Option.Rel (R name) (r.get? name) (r'.get? name)

theorem lookup_forall₂ {R : Text → Json → Json → Prop} {fields fields' : List (Text × Json)}
    (h : List.Forall₂ (fun p q => p.1 = q.1 ∧ R p.1 p.2 q.2) fields fields') (name : Text) :
    Option.Rel (R name) (fields.lookup name) (fields'.lookup name) := by
  induction h with
  | nil => exact .none
  | @cons p q _ _ hp _ ih =>
    obtain ⟨hkey, hx⟩ := hp
    rw [List.lookup_cons, List.lookup_cons, ← hkey]
    by_cases hname : name = p.1
    · subst hname
      simpa using Option.Rel.some hx
    · rw [beq_false_of_ne hname]
      exact ih

/-- A field that is given once is found in any order. -/
theorem lookup_perm {fields fields' : List (Text × Json)} (h : fields.Perm fields')
    (hnodup : (fields.map Prod.fst).Nodup) (name : Text) : fields.lookup name = fields'.lookup name := by
  induction h with
  | nil => rfl
  | cons p _ ih =>
    rw [List.map_cons, List.nodup_cons] at hnodup
    rw [List.lookup_cons, List.lookup_cons, ih hnodup.2]
  | swap p q fields =>
    obtain ⟨key, x⟩ := p
    obtain ⟨key', x'⟩ := q
    rw [List.map_cons, List.map_cons, List.nodup_cons, List.mem_cons, not_or] at hnodup
    by_cases hkey : name = key'
    · have hne : name ≠ key := fun he => hnodup.1.1 (hkey.symm.trans he)
      simp [List.lookup_cons, beq_false_of_ne hne]
    · simp [List.lookup_cons, beq_false_of_ne hkey]
  | trans h _ ih ih' => exact (ih hnodup).trans (ih' ((h.map Prod.fst).nodup_iff.mp hnodup))

theorem rel_ite {α β : Type} {R : α → β → Prop} {p q : Prop} [Decidable p] [Decidable q] {a : α} {b : β}
    (hpq : p ↔ q) (h : p → R a b) : Option.Rel R (if p then some a else none) (if q then some b else none) := by
  by_cases hp : p
  · rw [if_pos hp, if_pos (hpq.mp hp)]
    exact .some (h hp)
  · rw [if_neg hp, if_neg fun hq => hp (hpq.mpr hq)]
    exact .none

/-- Members with the same keys and related values, then put in another order, have fields that are alike. -/
theorem record_obj_rel {R : Text → Json → Json → Prop} {members middle members' : List (Str × Json)}
    (h : List.Forall₂ (fun p q => p.1 = q.1 ∧ ∀ key, p.1 = some key → R key p.2 q.2) members middle)
    (horder : middle.Perm members') (names : List Text) :
    Option.Rel (Record.Alike R) (record? names (.obj members)) (record? names (.obj members')) := by
  have hknown : List.Forall₂ (fun p q => p.1 = q.1 ∧ R p.1 p.2 q.2) (knownMembers names members)
      (knownMembers names middle) := by
    refine List.rel_filterMap ?_ h
    rintro ⟨key, x⟩ ⟨_, x'⟩ ⟨rfl, hx⟩
    cases key with
    | none => exact .none
    | some key => exact rel_ite Iff.rfl fun _ => ⟨rfl, hx key rfl⟩
  have hperm : (knownMembers names middle).Perm (knownMembers names members') := horder.filterMap _
  have hsame : (knownMembers names members).map Prod.fst = (knownMembers names middle).map Prod.fst := by
    rw [← List.forall₂_eq_eq_eq, List.forall₂_map_left_iff, List.forall₂_map_right_iff]
    exact hknown.imp fun _ _ hp => hp.1
  have hkeys : (∀ p ∈ members, p.1.isSome) ↔ ∀ p ∈ members', p.1.isSome := by
    have hmiddle : (∀ p ∈ members, p.1.isSome) ↔ ∀ p ∈ middle, p.1.isSome := by
      clear hknown hperm hsame horder
      induction h with
      | nil => exact Iff.rfl
      | cons hp _ ih => rw [List.forall_mem_cons, List.forall_mem_cons, hp.1, ih]
    exact hmiddle.trans (forall_congr' fun p => imp_congr_left horder.mem_iff)
  rw [record_obj, record_obj]
  refine rel_ite (and_congr hkeys ?_) fun hn name => ?_
  · rw [hsame]
    exact (hperm.map Prod.fst).nodup_iff
  · have hlookup := lookup_perm hperm (hsame ▸ hn.2) name
    have halike := lookup_forall₂ hknown name
    rwa [hlookup] at halike

/-- Items that are related by place have fields that are alike. -/
theorem record_arr_rel {R : Text → Json → Json → Prop} {names : List Text} {items items' : List Json}
    (hlen : items.length = items'.length)
    (h : List.Forall₂ (fun p q => p.1 = q.1 ∧ R p.1 p.2 q.2) (names.zip items) (names.zip items')) :
    Option.Rel (Record.Alike R) (record? names (.arr items)) (record? names (.arr items')) := by
  rw [record_arr_eq_ite, record_arr_eq_ite]
  exact rel_ite (by rw [hlen]) fun _ => lookup_forall₂ h

theorem zip_forall₂ {R : Json → Json → Prop} {items items' : List Json} (h : List.Forall₂ R items items')
    (names : List Text) :
    List.Forall₂ (fun p q => p.1 = q.1 ∧ R p.2 q.2) (names.zip items) (names.zip items') := by
  induction h generalizing names with
  | nil => simp
  | cons hx _ ih =>
    cases names with
    | nil => exact .nil
    | cons name names => exact .cons ⟨rfl, hx⟩ (ih names)

/-- The order of members does not matter to the fields. -/
theorem record_permuted {v v' : Json} (h : Permuted v v') (names : List Text) :
    Option.Rel (Record.Alike fun _ => Permuted) (record? names v) (record? names v') := by
  cases h with
  | same =>
    cases record? names v with
    | none => exact .none
    | some r =>
      refine .some fun name => ?_
      cases r.get? name with
      | none => exact .none
      | some x => exact .some (.same x)
  | arr h => exact record_arr_rel h.length_eq (zip_forall₂ h names)
  | obj hkeys hvalues horder =>
    exact record_obj_rel ((forall₂_members hkeys hvalues).imp fun p q hp => ⟨hp.1, fun _ _ => hp.2⟩) horder names

/-- A member that is no field does not matter to the fields. -/
theorem record_inserted {names : List Text} {v v' : Json} (h : Inserted (fun name _ => name ∉ names) v v') :
    record? names v = record? names v' := by
  obtain @⟨name, x, hname, front, last⟩ := h
  have hknown : knownMembers names (front ++ last) = knownMembers names (front ++ (some name, x) :: last) := by
    unfold knownMembers
    rw [List.filterMap_append, List.filterMap_append, List.filterMap_cons_none (by simp [hname])]
  have hkeys : (∀ p ∈ front ++ last, p.1.isSome) ↔ ∀ p ∈ front ++ (some name, x) :: last, p.1.isSome := by
    rw [List.forall_mem_append, List.forall_mem_append, List.forall_mem_cons]
    exact ⟨fun h => ⟨h.1, rfl, h.2⟩, fun h => ⟨h.1, h.2.2⟩⟩
  rw [record_obj, record_obj, ← hknown]
  exact if_congr (and_congr_left' hkeys) rfl rfl

/-- The field `name` is related by `R`, and all others are the same. -/
def At (name : Text) (R : Json → Json → Prop) : Text → Json → Json → Prop :=
  fun key x x' => x = x' ∨ key = name ∧ R x x'

theorem Ignores.at_same {α : Type} {name : Text} {S : Json → Json → Prop} {read? : Json → Option α}
    (hread : Ignores S read?) : Ignores (At name S name) read? := by
  rintro v v' (rfl | ⟨-, h⟩)
  · rfl
  · exact hread v v' h

theorem Ignores.at_other {α : Type} {key name : Text} {S : Json → Json → Prop} {read? : Json → Option α}
    (hkey : key ≠ name) : Ignores (At name S key) read? := by
  rintro v v' (rfl | ⟨he, -⟩)
  · rfl
  · exact absurd he hkey

/-- A change in one field leaves the others as they are. -/
theorem record_inField {names : List Text} {name : Text} {R : Json → Json → Prop} {v v' : Json}
    (h : InField names name R v v') :
    Option.Rel (Record.Alike (At name R)) (record? names v) (record? names v') := by
  cases h with
  | @member x x' h front last =>
    have hsame : ∀ members : List (Str × Json),
        List.Forall₂ (fun p q => p.1 = q.1 ∧ ∀ key, p.1 = some key → At name R key p.2 q.2) members members :=
      fun members => List.forall₂_same.mpr fun p _ => ⟨rfl, fun _ _ => .inl rfl⟩
    have hfield : ∀ key, some name = some key → At name R key x x' :=
      fun key hkey => .inr ⟨(Option.some.inj hkey).symm, h⟩
    have hlast : List.Forall₂ (fun p q => p.1 = q.1 ∧ ∀ key, p.1 = some key → At name R key p.2 q.2)
        ((some name, x) :: last) ((some name, x') :: last) := .cons ⟨rfl, hfield⟩ (hsame last)
    exact record_obj_rel (List.rel_append (hsame front) hlast) (.refl _) names
  | @item x x' h front hname last =>
    refine record_arr_rel (by simp) ?_
    have hsame : ∀ fields : List (Text × Json),
        List.Forall₂ (fun p q => p.1 = q.1 ∧ At name R p.1 p.2 q.2) fields fields :=
      fun fields => List.forall₂_same.mpr fun p _ => ⟨rfl, .inl rfl⟩
    induction front generalizing names with
    | nil =>
      cases names with
      | nil => exact .nil
      | cons key names =>
        have hkey : key = name := by simpa using hname
        exact .cons ⟨rfl, .inr ⟨hkey, h⟩⟩ (hsame _)
    | cons y front ih =>
      cases names with
      | nil => exact .nil
      | cons key names => exact .cons ⟨rfl, .inl rfl⟩ (ih (by simpa using hname))

/-! ## Readers of records -/

/-- What a reader gives depends on the fields named `names`, and on each up to its relation. -/
def ReadsRecord {α : Type} (names : List Text) (R : Text → Json → Json → Prop) (read? : Json → Option α) : Prop :=
  ∀ v v', Option.Rel (Record.Alike R) (record? names v) (record? names v') → read? v = read? v'

variable {α : Type} {names : List Text} {R : Text → Json → Json → Prop} {read? : Json → Option α}

/-- What is made of related values is the same if it does not depend on their difference. -/
theorem bind_eq_of_rel {β γ : Type} {S : β → γ → Prop} {b? : Option β} {c? : Option γ} (h : Option.Rel S b? c?)
    {f : β → Option α} {g : γ → Option α} (hfg : ∀ b c, S b c → f b = g c) : b?.bind f = c?.bind g := by
  cases h with
  | none => rfl
  | some h => exact hfg _ _ h

theorem readsRecord_bind {f : Record → Option α} (hf : ∀ r r', Record.Alike R r r' → f r = f r') :
    ReadsRecord names R fun v => (record? names v).bind f :=
  fun _ _ h => bind_eq_of_rel h hf

/-- What is made of what is read. -/
theorem ReadsRecord.comp {β : Type} (h : ReadsRecord names R read?) (f : Option α → Option β) :
    ReadsRecord names R fun v => f (read? v) :=
  fun v v' hv => congrArg f (h v v' hv)

theorem ReadsRecord.permuted (h : ReadsRecord names (fun _ => Permuted) read?) : Ignores Permuted read? :=
  fun v v' hv => h v v' (record_permuted hv names)

theorem ReadsRecord.of_record_eq (h : ReadsRecord names R read?) (hrefl : ∀ name x, R name x x) {v v' : Json}
    (hv : record? names v = record? names v') : read? v = read? v' := by
  refine h v v' ?_
  rw [hv]
  cases record? names v' with
  | none => exact .none
  | some r =>
    refine .some fun name => ?_
    cases r.get? name with
    | none => exact .none
    | some x => exact .some (hrefl name x)

theorem ReadsRecord.inserted (h : ReadsRecord names (fun _ => Permuted) read?) :
    Ignores (Inserted fun name _ => name ∉ names) read? :=
  fun _ _ hv => h.of_record_eq (fun _ => .same) (record_inserted hv)

theorem ReadsRecord.inField {name : Text} {S : Json → Json → Prop} (h : ReadsRecord names (At name S) read?) :
    Ignores (InField names name S) read? :=
  fun v v' hv => h v v' (record_inField hv)

namespace Record.Alike

variable {r r' : Record} {name : Text}

/-- A field is read as the same by a reader that ignores the difference. -/
theorem getD (h : Record.Alike R r r') {default : α} (hread : Ignores (R name) read?) :
    r.getD? name default read? = r'.getD? name default read? := by
  have hname := h name
  unfold Record.getD?
  generalize r.get? name = x? at hname
  generalize r'.get? name = x?' at hname
  cases hname with
  | none => rfl
  | some hx => exact hread _ _ hx

theorem text (h : Record.Alike R r r') (hread : Ignores (R name) Json.text?) : r.text? name = r'.text? name :=
  h.getD hread

theorem flag (h : Record.Alike R r r') (hread : Ignores (R name) Json.flag?) : r.flag? name = r'.flag? name :=
  h.getD hread

theorem list (h : Record.Alike R r r') (hread : Ignores (R name) (Json.list? read?)) :
    r.list? name read? = r'.list? name read? :=
  h.getD hread

theorem optional (h : Record.Alike R r r') (hread : Ignores (R name) (Json.optional? read?)) :
    r.optional? name read? = r'.optional? name read? :=
  h.getD hread

end Record.Alike

end ApiReference.Json
