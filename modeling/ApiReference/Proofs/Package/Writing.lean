import ApiReference.Proofs.Entry.RoundTrip
import ApiReference.Proofs.Json.Refusal
import ApiReference.Proofs.Package.Reordering

/-!
# Ways of writing a package

The values that write a package and its parts: a package and its commands are records with any further members, and a
repository is a string or an object whose further members are settled.

Of each part, every value that writes it is read as it (`writes_readBy`), and every value that is read as it writes it
(`writes_covers`). So a value is read as the package that it writes and as no other (`Package.ofJson_eq_some_iff`).
-/

namespace ApiReference

open Json (Field Named Record Writing WritesRecord ofMembers record? record_of_writes)

/-! ## Values that write a package -/

namespace Repository

/-- The field of a repository with an address or without. -/
def fields (url : Option Text) : List Field :=
  [.optional "url".toList Writing.text url]

/-- A text is written as a string, and a record as an object with further settled members. -/
inductive Writes : Writing Repository
  | shorthand (address : Text) : Writes (.shorthand address) (.str (some address))
  | detailed {url : Option Text} {members : List (Text × Json)}
      (h : Named (fun v => v.settled (levels - 1)) (fields url) members) : Writes (.detailed url) (ofMembers members)

end Repository

namespace Scripts

/-- The field of the commands of a package. -/
def fields (s : Scripts) : List Field :=
  [.optional "test".toList Writing.text s.test]

/-- The commands of a package are written as a record with any further members. -/
def Writes : Writing Scripts :=
  fun s => WritesRecord (fun _ => True) s.fields

end Scripts

namespace Package

/-- The fields of a package. -/
def fields (p : Package) : List Field :=
  [.text "name".toList p.name, .text "description".toList p.description,
    .optional "repository".toList Repository.Writes p.repository, .optional "scripts".toList Scripts.Writes p.scripts]

/-- A package is written as a record with any further members. -/
def Writes : Writing Package :=
  fun p => WritesRecord (fun _ => True) p.fields

theorem nodup_names : names.Nodup := by
  decide

end Package

/-! ## Reading what is written -/

namespace Repository

theorem ofJson_num (x : Json.Number) : ofJson? (.num x) = none := by
  unfold ofJson?
  cases (Json.num x).settled levels <;> rfl

theorem not_writes_null (x : Repository) : ¬ x.Writes .null := by
  intro h
  cases h

theorem settled_fields (url : Option Text) : ∀ f ∈ fields url, f.Settled (levels - 1) := by
  refine List.forall_mem_singleton.mpr ?_
  rintro v (_ | rfl) <;> rfl

theorem writes_readBy : Repository.Writes.ReadBy ofJson? := by
  rintro _ _ (address | @⟨url, members, h⟩)
  · rfl
  · have hsettled : (ofMembers members).settled levels :=
      Json.settled_ofMembers_iff.mpr (h.settled (settled_fields url))
    obtain ⟨r, hr, hfields⟩ := record_of_writes (.object h) (List.pairwise_singleton _ _)
    have hurl := Record.optionalText_of_given (hfields _ (List.mem_singleton.mpr rfl))
    rw [ofMembers, ofJson_obj, ← ofMembers, if_pos hsettled]
    show (record? (Json.fieldNames (fields url)) (ofMembers members)).bind _ = _
    rw [hr, Option.bind_some, hurl]
    rfl

/-- What is read of an object, field by field. -/
theorem ofJson_obj_eq_some {members : List (Json.Str × Json)} {x : Repository}
    (h : ofJson? (.obj members) = some x) :
    (Json.obj members).settled levels ∧ ∃ r url, record? names (.obj members) = some r ∧
      r.optional? "url".toList Json.text? = some url ∧ x = .detailed url := by
  rw [ofJson_obj] at h
  obtain ⟨hsettled, h⟩ := Option.ite_none_right_eq_some.mp h
  obtain ⟨r, hr, h⟩ := Option.bind_eq_some_iff.mp h
  obtain ⟨url, hurl, h⟩ := Option.bind_eq_some_iff.mp h
  exact ⟨hsettled, r, url, hr, hurl, (Option.some.inj h).symm⟩

theorem writes_covers : Repository.Writes.Covers ofJson? := by
  intro v x h
  cases v with
  | str s =>
    cases s with
    | none => cases h
    | some address =>
      obtain rfl : .shorthand address = x := Option.some.inj h
      exact .shorthand address
  | obj members =>
    obtain ⟨hsettled, r, url, hr, hurl, rfl⟩ := ofJson_obj_eq_some h
    obtain ⟨members, he⟩ := (Json.hasForm_of_record hr).exists_eq_ofMembers
    rw [he] at hr hsettled ⊢
    refine .detailed (Json.named_of_record hr ?_ (Json.settled_ofMembers_iff.mp hsettled))
    exact List.forall_mem_singleton.mpr (Record.given_of_optionalText hurl)
  | num x =>
    rw [ofJson_num] at h
    cases h
  | arr items =>
    rw [ofJson_arr] at h
    cases h
  | _ => cases h

end Repository

namespace Scripts

theorem writes_readBy : Scripts.Writes.ReadBy ofJson? := by
  intro s v h
  obtain ⟨r, hr, hfields⟩ := record_of_writes h (List.pairwise_singleton _ _)
  have htest := Record.optionalText_of_given (hfields _ (List.mem_singleton.mpr rfl))
  unfold ofJson?
  show (record? (Json.fieldNames s.fields) v).bind _ = _
  rw [hr, Option.bind_some, htest]
  rfl

/-- What is read of the commands, field by field. -/
theorem ofJson_eq_some {v : Json} {s : Scripts} (h : ofJson? v = some s) :
    ∃ r, record? names v = some r ∧ r.optional? "test".toList Json.text? = some s.test := by
  unfold ofJson? at h
  obtain ⟨r, hr, h⟩ := Option.bind_eq_some_iff.mp h
  obtain ⟨test, htest, h⟩ := Option.bind_eq_some_iff.mp h
  obtain rfl := Option.some.inj h
  exact ⟨r, hr, htest⟩

theorem writes_covers : Scripts.Writes.Covers ofJson? := by
  intro v s h
  obtain ⟨r, hr, htest⟩ := ofJson_eq_some h
  refine Json.writes_of_record (List.pairwise_singleton _ _) hr ?_
  exact List.forall_mem_singleton.mpr (Record.given_of_optionalText htest)

end Scripts

namespace Package

/-- What is read of a package, field by field. -/
theorem ofJson_eq_some {v : Json} {p : Package} (h : ofJson? v = some p) :
    ∃ r, record? names v = some r ∧ r.text? "name".toList = some p.name ∧
      r.text? "description".toList = some p.description ∧
      r.optional? "repository".toList Repository.ofJson? = some p.repository ∧
      r.optional? "scripts".toList Scripts.ofJson? = some p.scripts := by
  unfold ofJson? at h
  obtain ⟨r, hr, h⟩ := Option.bind_eq_some_iff.mp h
  obtain ⟨name, hname, h⟩ := Option.bind_eq_some_iff.mp h
  obtain ⟨description, hdescription, h⟩ := Option.bind_eq_some_iff.mp h
  obtain ⟨repository, hrepository, h⟩ := Option.bind_eq_some_iff.mp h
  obtain ⟨scripts, hscripts, h⟩ := Option.bind_eq_some_iff.mp h
  obtain rfl := Option.some.inj h
  exact ⟨r, hr, hname, hdescription, hrepository, hscripts⟩

theorem writes_readBy : Package.Writes.ReadBy ofJson? := by
  intro p v h
  obtain ⟨r, hr, hfields⟩ := record_of_writes h nodup_names
  simp only [fields, List.forall_mem_cons] at hfields
  obtain ⟨hname, hdescription, hrepository, hscripts, -⟩ := hfields
  unfold ofJson?
  show (record? (Json.fieldNames p.fields) v).bind _ = _
  rw [hr, Option.bind_some, Record.text_of_given hname, Record.text_of_given hdescription,
    Record.optional_of_given Repository.writes_readBy Repository.not_writes_null hrepository,
    Record.optional_of_given Scripts.writes_readBy (fun _ => Json.not_writesRecord_null) hscripts]
  rfl

theorem writes_covers : Package.Writes.Covers ofJson? := by
  intro v p h
  obtain ⟨r, hr, hname, hdescription, hrepository, hscripts⟩ := ofJson_eq_some h
  refine Json.writes_of_record nodup_names hr ?_
  simp only [fields, List.forall_mem_cons]
  exact ⟨Record.given_of_getD Writing.text_covers hname, Record.given_of_getD Writing.text_covers hdescription,
    Record.given_of_getD (Writing.optional_covers Repository.writes_covers) hrepository,
    Record.given_of_getD (Writing.optional_covers Scripts.writes_covers) hscripts,
    fun _ hf => absurd hf List.not_mem_nil⟩

/-- **A value is read as the package that it writes**, and as no other. -/
theorem ofJson_eq_some_iff {v : Json} {p : Package} : ofJson? v = some p ↔ p.Writes v :=
  ⟨writes_covers v p, writes_readBy p v⟩

end Package

end ApiReference
