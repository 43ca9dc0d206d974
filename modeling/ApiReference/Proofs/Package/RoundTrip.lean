import ApiReference.Proofs.Package.Writing

/-!
# Packages are read back

A document of a package is any text of any value that writes it (`Package.Document`). It is parsed to the package, and a
document that writes no package is refused: it has not the form of a record, or gives a field twice, or by a value that
is refused for it (`Package.Refused`). The address and the test command of a package are those that its document gives
(`Package.GivesUrl`, `Package.GivesTest`).
-/

namespace ApiReference

open Json (FieldType Positional Refuses Writing given ofMembers)

/-! ## Objects with all fields -/

/-- A repository as a string or as an object with all of its fields. -/
def Repository.toJson : Repository → Json
  | .shorthand address => .ofText address
  | .detailed url => ofMembers [("url".toList, .ofOption Json.ofText url)]

/-- The commands of a package as an object with all of their fields. -/
def Scripts.toJson (s : Scripts) : Json :=
  ofMembers [("test".toList, .ofOption Json.ofText s.test)]

namespace Package

/-- The fields of a package, by name. -/
def members (p : Package) : List (Text × Json) :=
  [("name".toList, .ofText p.name), ("description".toList, .ofText p.description),
    ("repository".toList, .ofOption Repository.toJson p.repository),
    ("scripts".toList, .ofOption Scripts.toJson p.scripts)]

/-- A package as an object with all of its fields. -/
def toJson (p : Package) : Json :=
  ofMembers p.members

/-- The documents of a package: every text of every value that writes it. -/
def Document (p : Package) (s : Text) : Prop :=
  ∃ v, p.Writes v ∧ v.Spelling s

end Package

theorem Repository.writes_toJson (x : Repository) : x.Writes x.toJson := by
  cases x with
  | shorthand address => exact .shorthand address
  | detailed url =>
    have h : Positional (fields url) [.ofOption Json.ofText url] :=
      ⟨Json.optional_writes_ofOption Json.text_writes_ofText url, rfl⟩
    exact .detailed (h.named rfl (List.pairwise_singleton _ _))

theorem Scripts.writes_toJson (s : Scripts) : s.Writes s.toJson := by
  have h : Positional s.fields [.ofOption Json.ofText s.test] :=
    ⟨Json.optional_writes_ofOption Json.text_writes_ofText s.test, rfl⟩
  exact .object (h.named rfl (List.pairwise_singleton _ _))

theorem Package.writes_toJson (p : Package) : p.Writes p.toJson := by
  have h : Positional p.fields (p.members.map (·.2)) :=
    ⟨rfl, rfl, Json.optional_writes_ofOption Repository.writes_toJson p.repository,
      Json.optional_writes_ofOption Scripts.writes_toJson p.scripts, rfl⟩
  exact .object (h.named rfl nodup_names)

/-! ## Refused documents -/

/-- Neither a text nor `null`. -/
def Json.NeitherTextNorNull (v : Json) : Prop :=
  v ≠ .null ∧ ¬ FieldType.text.Holds v

/-- An address is refused if it is neither a string nor `null`. -/
def Repository.refusals : List (Text × (Json → Prop)) :=
  [("url".toList, Json.NeitherTextNorNull)]

/-- The values that are refused for a repository: numbers, booleans, arrays and strings that are no text; and objects
that are not settled or are refused for their address. -/
inductive Repository.Refused : Json → Prop
  | flag (b : Bool) : Refused (.bool b)
  | number (x : Json.Number) : Refused (.num x)
  | array (items : List Json) : Refused (.arr items)
  | noText : Refused (.str none)
  | unsettled {members : List (Json.Str × Json)} (h : ¬ (Json.obj members).settled levels) : Refused (.obj members)
  | object {members : List (Json.Str × Json)} (h : Json.Refused refusals (.obj members)) : Refused (.obj members)

/-- A command is refused if it is neither a string nor `null`. -/
def Scripts.refusals : List (Text × (Json → Prop)) :=
  [("test".toList, Json.NeitherTextNorNull)]

/-- The values that are refused for the commands of a package. -/
def Scripts.Refused (v : Json) : Prop :=
  v ≠ .null ∧ Json.Refused refusals v

/-- The values that are refused for each field of a package. -/
def Package.refusals : List (Text × (Json → Prop)) :=
  [("name".toList, fun v => ¬ FieldType.text.Holds v), ("description".toList, fun v => ¬ FieldType.text.Holds v),
    ("repository".toList, Repository.Refused), ("scripts".toList, Scripts.Refused)]

/-- The values that are refused as a package. -/
def Package.Refused : Json → Prop :=
  Json.Refused refusals

theorem Json.refuses_optional_text : Refuses (optional? text?) NeitherTextNorNull :=
  refuses_text.optional

namespace Repository

theorem refuses_ofMembers : Refuses ofMembers? (Json.Refused refusals) :=
  Json.refuses_record refusals rfl (.cons Json.refuses_optional_text fun _ => .nil _)

/-- A repository that may be `null` is refused as it should be. -/
theorem refuses_optional : Refuses (Json.optional? ofJson?) Repository.Refused := by
  intro v
  cases v with
  | null =>
    refine iff_of_false (Option.some_ne_none none) fun h => ?_
    cases h
  | bool b => exact iff_of_true rfl (.flag b)
  | num x =>
    refine iff_of_true ?_ (.number x)
    show (ofJson? (.num x)).map some = none
    rw [ofJson_num]
    rfl
  | str s =>
    cases s with
    | none => exact iff_of_true rfl .noText
    | some address =>
      refine iff_of_false (Option.some_ne_none (some (shorthand address))) fun h => ?_
      cases h
  | arr items =>
    refine iff_of_true ?_ (.array items)
    show (ofJson? (.arr items)).map some = none
    rw [ofJson_arr]
    rfl
  | obj members =>
    show (ofJson? (.obj members)).map some = none ↔ _
    rw [Option.map_eq_none_iff, ofJson_obj]
    by_cases h : (Json.obj members).settled levels
    · rw [if_pos h, refuses_ofMembers]
      refine ⟨.object, fun hrefused => ?_⟩
      cases hrefused with
      | unsettled h' => exact absurd h h'
      | object h' => exact h'
    · rw [if_neg h]
      exact iff_of_true rfl (.unsettled h)

end Repository

theorem Scripts.refuses_optional : Refuses (Json.optional? ofJson?) Scripts.Refused :=
  Refuses.optional (Json.refuses_record refusals rfl (.cons Json.refuses_optional_text fun _ => .nil _))

theorem Package.refuses : Refuses ofJson? Refused :=
  Json.refuses_record refusals rfl (.cons Json.refuses_text fun _ => .cons Json.refuses_text fun _ =>
    .cons Repository.refuses_optional fun _ => .cons Scripts.refuses_optional fun _ => .nil _)

/-! ## What a document gives -/

/-- The address that a value gives for a repository: the text of a string, or that of the member `url` of an object. -/
inductive Repository.GivesUrl : Json → Text → Prop
  | shorthand (address : Text) : GivesUrl (.str (some address)) address
  | detailed {members : List (Json.Str × Json)} {url : Text}
      (h : .str (some url) ∈ given names "url".toList (.obj members)) : GivesUrl (.obj members) url

/-- The address that a document gives for the repository of a package. -/
def Package.GivesUrl (v : Json) (url : Text) : Prop :=
  ∃ w ∈ given names "repository".toList v, Repository.GivesUrl w url

/-- The command that a document gives for the tests of a package. -/
def Package.GivesTest (v : Json) (command : Text) : Prop :=
  ∃ w ∈ given names "scripts".toList v, .str (some command) ∈ given Scripts.names "test".toList w

theorem Repository.not_givesUrl_null {url : Text} : ¬ GivesUrl .null url := by
  intro h
  cases h

theorem Repository.url_eq_some_iff {v : Json} {x : Repository} (h : ofJson? v = some x) (url : Text) :
    x.url? = some url ↔ GivesUrl v url := by
  cases writes_covers v x h with
  | shorthand address =>
    constructor
    · intro he
      obtain rfl : address = url := Option.some.inj he
      exact .shorthand address
    · rintro ⟨⟩
      rfl
  | @detailed url' members _ =>
    obtain ⟨-, r, url'', hr, hurl, he⟩ := ofJson_obj_eq_some h
    obtain rfl : url' = url'' := Repository.detailed.inj he
    have hgiven := Json.eq_some_iff_text_mem_given hr (List.mem_singleton.mpr rfl) hurl url
    refine hgiven.trans ⟨.detailed, ?_⟩
    intro hgives
    cases hgives with
    | detailed h => exact h

theorem Scripts.test_eq_some_iff {v : Json} {s : Scripts} (h : ofJson? v = some s) (command : Text) :
    s.test = some command ↔ .str (some command) ∈ given names "test".toList v := by
  obtain ⟨r, hr, htest⟩ := ofJson_eq_some h
  exact Json.eq_some_iff_text_mem_given hr (List.mem_singleton.mpr rfl) htest command

namespace Package

variable {v : Json} {p : Package}

theorem repositoryUrl_eq_some_iff (h : ofJson? v = some p) (url : Text) :
    p.repositoryUrl? = some url ↔ GivesUrl v url := by
  obtain ⟨r, hr, -, -, hrepository, -⟩ := ofJson_eq_some h
  rw [repositoryUrl?, Option.bind_eq_some_iff]
  exact Json.exists_optional_iff hr (by decide) hrepository (fun w y hy => Repository.url_eq_some_iff hy url)
    Repository.not_givesUrl_null

theorem bind_test_eq_some_iff (h : ofJson? v = some p) (command : Text) :
    p.scripts.bind Scripts.test = some command ↔ GivesTest v command := by
  obtain ⟨r, hr, -, -, -, hscripts⟩ := ofJson_eq_some h
  rw [Option.bind_eq_some_iff]
  exact Json.exists_optional_iff hr (by decide) hscripts (fun w y hy => Scripts.test_eq_some_iff hy command)
    List.not_mem_nil

/-- There are tests exactly if a command is given for them that is not empty. -/
theorem hasTestScript_iff (h : ofJson? v = some p) :
    p.hasTestScript ↔ ∃ command, GivesTest v command ∧ command ≠ [] := by
  simp only [← bind_test_eq_some_iff h]
  unfold hasTestScript
  cases p.scripts.bind Scripts.test <;> simp

/-! ## Parsing -/

theorem parse_eq_ok_iff {s : Text} (hs : Json.read? s = some v) : parse s = .ok p ↔ ofJson? v = some p := by
  rw [parse, hs, Option.bind_some]
  cases ofJson? v <;> simp

theorem parse_eq_error_iff {s : Text} (hs : Json.read? s = some v) :
    parse s = .error .package ↔ ofJson? v = none := by
  rw [parse, hs, Option.bind_some]
  cases ofJson? v <;> simp

/-- **Every document of a package is parsed to the package**, and there is one for each. A document is parsed to the
package that it writes and to no other, and refused exactly if there is reason to. The address and the tests of a
package that is parsed are those that its document gives. -/
theorem parse_as_written :
    (∀ p : Package, Document p p.toJson.write ∧ ∀ s, Document p s → parse s = .ok p) ∧
      ∀ s v, Json.read? s = some v →
        (∀ p, parse s = .ok p ↔ p.Writes v) ∧ (parse s = .error .package ↔ Refused v) ∧
          ∀ p, parse s = .ok p →
            (∀ url, p.repositoryUrl? = some url ↔ GivesUrl v url) ∧
              (p.hasTestScript ↔ ∃ command, GivesTest v command ∧ command ≠ []) := by
  have hparse : ∀ s v, Json.read? s = some v → ∀ p, parse s = .ok p ↔ p.Writes v :=
    fun s v hs p => (parse_eq_ok_iff hs).trans ofJson_eq_some_iff
  refine ⟨fun p => ⟨⟨_, p.writes_toJson, Json.spelling_write _⟩, ?_⟩, fun s v hs => ?_⟩
  · rintro s ⟨v, hv, hs⟩
    exact (hparse s v (Json.read_of_spelling hs) p).mpr hv
  · refine ⟨hparse s v hs, (parse_eq_error_iff hs).trans (refuses v), fun p hp => ?_⟩
    have h := (parse_eq_ok_iff hs).mp hp
    exact ⟨repositoryUrl_eq_some_iff h, hasTestScript_iff h⟩

/-- A repository with a member that is no field, behind the commands as an array; and one whose address is given
twice. -/
theorem parse_as_written_detailed :
    parse ("\x7b\"scripts\":[\"t\"],\"repository\":\x7b\"type\":[1e5],\"url\":\"u\"\x7d," ++
        "\"name\":\"w\"\x7d").toList = .ok ⟨['w'], [], some (.detailed (some ['u'])), some ⟨some ['t']⟩⟩ ∧
      repositoryUrl? ⟨['w'], [], some (.detailed (some ['u'])), some ⟨some ['t']⟩⟩ = some ['u'] ∧
      hasTestScript ⟨['w'], [], some (.detailed (some ['u'])), some ⟨some ['t']⟩⟩ ∧
      parse "\x7b\"repository\":\x7b\"url\":null,\"url\":null\x7d\x7d".toList = .error .package := by
  let repository := ofMembers [("type".toList, .arr [.num ⟨false, 1, [], 5⟩]), ("url".toList, .ofText ['u'])]
  let twice := ofMembers [("url".toList, .null), ("url".toList, .null)]
  have hrepository : Repository.Writes (.detailed (some ['u'])) repository :=
    .detailed ⟨by decide, List.forall_mem_singleton.mpr (.some rfl), by decide +kernel⟩
  have hscripts : Scripts.Writes ⟨some ['t']⟩ (.arr [.ofText ['t']]) := .array ⟨.some rfl, rfl⟩
  have hwrites : Writes ⟨['w'], [], some (.detailed (some ['u'])), some ⟨some ['t']⟩⟩
      (ofMembers [("scripts".toList, .arr [.ofText ['t']]), ("repository".toList, repository),
        ("name".toList, .ofText ['w'])]) :=
    .object ⟨by decide, List.forall_mem_cons.mpr ⟨rfl, List.forall_mem_cons.mpr ⟨rfl, List.forall_mem_cons.mpr
      ⟨.some hrepository, List.forall_mem_singleton.mpr (.some hscripts)⟩⟩⟩, fun _ _ _ => trivial⟩
  have hparse := (parse_as_written.1 _).2 _ ⟨_, hwrites, Json.spelling_write _⟩
  obtain ⟨hurl, htests⟩ := (parse_as_written.2 _ _ (Json.read_write _)).2.2 _ hparse
  refine ⟨hparse, (hurl _).mpr ⟨repository, List.mem_singleton.mpr rfl, .detailed (List.mem_singleton.mpr rfl)⟩,
    htests.mpr ⟨['t'], ⟨_, List.mem_singleton.mpr rfl, List.mem_singleton.mpr rfl⟩, List.cons_ne_nil _ _⟩, ?_⟩
  have hrefused : Refused (ofMembers [("repository".toList, twice)]) :=
    .value (List.mem_cons_of_mem _ (List.mem_cons_of_mem _ List.mem_cons_self)) (List.mem_singleton.mpr rfl)
      (.object (.twice (List.mem_singleton.mpr rfl) (by decide)))
  exact (parse_as_written.2 _ _ (Json.read_write _)).2.1.mpr hrefused

end Package

end ApiReference
