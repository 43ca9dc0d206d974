import ApiReference.Package.Decode
import ApiReference.Proofs.Entry.Reordering
import ApiReference.Proofs.Json.Layout

/-!
# Members of documents, in any order

Neither the order of the members of a document nor a member that is no field matters to the package that is read of it.
With the same for entries, `parse_rearranged` says so of the texts that are parsed.
-/

namespace ApiReference

open Json (Ignores InField InItem Permuted ReadsRecord readsRecord_bind)

/-! ## Members that are no fields -/

/-- A repository with one member more that is not its address. Its value is settled, as all that stands in a
repository. -/
def Repository.Inserted : Json → Json → Prop :=
  Json.Inserted fun name x => name ≠ "url".toList ∧ x.settled (levels - 1)

/-- A package with one member more that is no field, of its own or in one of its parts. -/
inductive Package.Inserted : Json → Json → Prop
  | own {v v' : Json} (h : Json.Inserted (fun name _ => name ∉ names) v v') : Inserted v v'
  | repository {v v' : Json} (h : InField names "repository".toList Repository.Inserted v v') : Inserted v v'
  | scripts {v v' : Json}
      (h : InField names "scripts".toList (Json.Inserted fun name _ => name ∉ Scripts.names) v v') : Inserted v v'

/-! ## Repositories -/

namespace Repository

theorem readsRecord_ofMembers : ReadsRecord names (fun _ => Permuted) ofMembers? :=
  readsRecord_bind fun r r' h => by rw [h.optional (Json.permuted_optional Json.permuted_text)]

theorem ofJson_obj (members : List (Json.Str × Json)) :
    ofJson? (.obj members) = if (Json.obj members).settled levels then ofMembers? (.obj members) else none := by
  unfold ofJson?
  by_cases h : (Json.obj members).settled levels = true
  · rw [if_pos h, h]
    rfl
  · rw [Bool.not_eq_true] at h
    rw [h]
    rfl

theorem ofJson_arr (items : List Json) : ofJson? (.arr items) = none := by
  unfold ofJson?
  cases (Json.arr items).settled levels <;> rfl

theorem permuted : Ignores Permuted ofJson? := by
  intro v v' h
  have hsettled : v.settled levels = v'.settled levels := Json.settled_permuted h
  cases h with
  | same => rfl
  | arr => rw [ofJson_arr, ofJson_arr]
  | obj hkeys hvalues horder =>
    rw [ofJson_obj, ofJson_obj, hsettled, readsRecord_ofMembers.permuted _ _ (.obj hkeys hvalues horder)]

/-- A member that is not the address does not matter to the repository. -/
theorem inserted : Ignores Repository.Inserted ofJson? := by
  rintro v v' @⟨name, x, ⟨hname, hx⟩, front, last⟩
  have hinserted : Json.Inserted (fun name _ => name ∉ names) (.obj (front ++ last))
      (.obj (front ++ (some name, x) :: last)) := .mk (mt List.mem_singleton.mp hname) front last
  have hread := readsRecord_ofMembers.inserted _ _ hinserted
  rw [ofJson_obj, ofJson_obj, Json.settled_insert (by decide : 0 < levels) hx, hread]

end Repository

/-! ## Packages -/

theorem Scripts.readsRecord : ReadsRecord names (fun _ => Permuted) Scripts.ofJson? :=
  readsRecord_bind fun r r' h => by rw [h.optional (Json.permuted_optional Json.permuted_text)]

namespace Package

/-- A package is read from its fields, each of which may differ in a way that its own reader ignores. -/
theorem readsRecord {R : Text → Json → Json → Prop} (hname : Ignores (R "name".toList) Json.text?)
    (hdescription : Ignores (R "description".toList) Json.text?)
    (hrepository : Ignores (R "repository".toList) (Json.optional? Repository.ofJson?))
    (hscripts : Ignores (R "scripts".toList) (Json.optional? Scripts.ofJson?)) : ReadsRecord names R ofJson? := by
  refine readsRecord_bind fun r r' h => ?_
  rw [h.text hname, h.text hdescription, h.optional hrepository, h.optional hscripts]

theorem readsRecord_permuted : ReadsRecord names (fun _ => Permuted) ofJson? :=
  readsRecord Json.permuted_text Json.permuted_text (Json.permuted_optional Repository.permuted)
    (Json.permuted_optional Scripts.readsRecord.permuted)

/-- A member that is no field, of a package or of one of its parts, does not matter to the package. -/
theorem inserted : Ignores Package.Inserted ofJson? := by
  intro v v' h
  cases h with
  | own h => exact readsRecord_permuted.inserted v v' h
  | repository h =>
    have hread := readsRecord (R := Json.At "repository".toList _) (.at_other (by decide)) (.at_other (by decide))
      (.at_same Repository.inserted.optional_inserted) (.at_other (by decide))
    exact hread.inField v v' h
  | scripts h =>
    have hread := readsRecord (R := Json.At "scripts".toList _) (.at_other (by decide)) (.at_other (by decide))
      (.at_other (by decide)) (.at_same Scripts.readsRecord.inserted.optional_inserted)
    exact hread.inField v v' h

end Package

/-! ## Documents -/

/-- What is read of a text is read of its value. -/
theorem Entry.parse_eq_of_read {v v' : Json} {s s' : Text} (hs : Json.read? s = some v) (hs' : Json.read? s' = some v')
    (h : listOfJson? v = listOfJson? v') : parse s = parse s' := by
  rw [parse, parse, hs, hs', Option.bind_some, Option.bind_some, h]

theorem Package.parse_eq_of_read {v v' : Json} {s s' : Text} (hs : Json.read? s = some v)
    (hs' : Json.read? s' = some v') (h : ofJson? v = ofJson? v') : parse s = parse s' := by
  rw [parse, parse, hs, hs', Option.bind_some, Option.bind_some, h]

/-- **The order of members does not matter, nor do members that are no fields.** Texts of two values that differ in
nothing else are both refused or parsed to the same. -/
theorem parse_rearranged {v v' : Json} {s s' : Text} (hs : Json.read? s = some v) (hs' : Json.read? s' = some v') :
    (v.Permuted v' → Entry.parse s = Entry.parse s' ∧ Package.parse s = Package.parse s') ∧
      (InItem Entry.Inserted v v' → Entry.parse s = Entry.parse s') ∧
      (Package.Inserted v v' → Package.parse s = Package.parse s') := by
  refine ⟨fun h => ⟨?_, ?_⟩, fun h => ?_, fun h => ?_⟩
  · exact Entry.parse_eq_of_read hs hs' (Json.permuted_list Entry.readsRecord_permuted.permuted v v' h)
  · exact Package.parse_eq_of_read hs hs' (Package.readsRecord_permuted.permuted v v' h)
  · exact Entry.parse_eq_of_read hs hs' (Entry.inserted.inItem v v' h)
  · exact Package.parse_eq_of_read hs hs' (Package.inserted v v' h)

open Json in
/-- A tag whose kind stands first and last, and then a member more in between. -/
theorem parse_rearranged_alias :
    let first := "[\x7b\"tags\":[\x7b\"type\":\"alias\",\"string\":\"a\"\x7d]\x7d]".toList
    let last := "[\x7b\"tags\":[\x7b\"string\":\"a\",\"type\":\"alias\"\x7d]\x7d]".toList
    let more := "[\x7b\"tags\":[\x7b\"string\":\"a\",\"line\":[null],\"type\":\"alias\"\x7d]\x7d]".toList
    Entry.parse first = Entry.parse last ∧ Entry.parse last = Entry.parse more ∧
      (Entry.parse more).toOption = some [⟨[.aliased ['a']], none, none⟩] := by
  let type : Json.Str × Json := (some "type".toList, .str (some "alias".toList))
  let text : Json.Str × Json := (some "string".toList, .str (some ['a']))
  let line : Json.Str × Json := (some "line".toList, .arr [.null])
  let entry (members : List (Json.Str × Json)) : Json := .obj [(some "tags".toList, .arr [.obj members])]
  have hpermuted : (Json.arr [entry [type, text]]).Permuted (.arr [entry [text, type]]) := by
    have htag : (Json.obj [type, text]).Permuted (.obj [text, type]) :=
      .obj rfl (.cons (.same _) (.cons (.same _) .nil)) (.swap ..)
    have hentry : (entry [type, text]).Permuted (entry [text, type]) := by
      refine .obj ?_ ?_ (.refl _)
      · rfl
      · exact .cons (.arr (.cons htag .nil)) .nil
    exact .arr (.cons hentry .nil)
  have hinserted : InItem Entry.Inserted (.arr [entry [text, type]]) (.arr [entry [text, line, type]]) := by
    have htag : Tag.Inserted (.obj [text, type]) (.obj [text, line, type]) :=
      .mk (List.mem_cons_of_mem _ (List.mem_singleton_self _)) (.mk (by decide) [text] [type])
    have hentry : Entry.Inserted (entry [text, type]) (entry [text, line, type]) :=
      .tag (.member (.mk htag [] []) [] [])
    exact .mk hentry [] []
  exact ⟨((parse_rearranged (read_write _) (read_write _)).1 hpermuted).1,
    (parse_rearranged (read_write _) (read_write _)).2.1 hinserted, by decide +kernel⟩

end ApiReference
