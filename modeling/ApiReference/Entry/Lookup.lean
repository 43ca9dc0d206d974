import ApiReference.Entry.Basic

/-!
# Looking up tags

What an entry says is looked up in its list of tags: either the first tag of a kind counts (`visibility?`, `alias?`,
`module?`, `returns?`), or all tags of a kind do, in order (`params`, `properties`, `samples`). `displayName?` is the
name an entry is documented under.
-/

namespace ApiReference

namespace Tag

/-- The visibility that a tag gives. -/
def visibility? : Tag → Option Visibility
  | .api v => some v
  | _ => none

/-- The name that a tag gives to the symbol. -/
def alias? : Tag → Option Text
  | .aliased name => some name
  | _ => none

/-- The module that a tag names. -/
def module? : Tag → Option Text
  | .inModule path => some path
  | _ => none

/-- The returned value that a tag documents. -/
def returns? : Tag → Option ReturnDoc
  | .returns value => some value
  | _ => none

/-- The parameter that a tag documents. -/
def param? : Tag → Option FieldDoc
  | .param field => some field
  | _ => none

/-- The property that a tag documents. -/
def property? : Tag → Option FieldDoc
  | .property field => some field
  | _ => none

/-- The code that a tag shows. -/
def sample? : Tag → Option Text
  | .sample code => some code
  | _ => none

end Tag

namespace Entry

/-! ## First and all -/

/-- The visibility that the first tag with one gives. -/
def visibility? (e : Entry) : Option Visibility :=
  e.tags.findSome? Tag.visibility?

/-- The name that the first tag with one gives. -/
def alias? (e : Entry) : Option Text :=
  e.tags.findSome? Tag.alias?

/-- The module that the first tag with one names. -/
def module? (e : Entry) : Option Text :=
  e.tags.findSome? Tag.module?

/-- The returned value that the first tag with one documents. -/
def returns? (e : Entry) : Option ReturnDoc :=
  e.tags.findSome? Tag.returns?

/-- The documented parameters, in order. -/
def params (e : Entry) : List FieldDoc :=
  e.tags.filterMap Tag.param?

/-- The documented properties, in order. -/
def properties (e : Entry) : List FieldDoc :=
  e.tags.filterMap Tag.property?

/-- The pieces of code that show the symbol in use, in order. -/
def samples (e : Entry) : List Text :=
  e.tags.filterMap Tag.sample?

/-! ## The name of an entry -/

/-- The name of a module: its path with a point for the first slash. -/
def moduleName : (path : Text) → Text
  | [] => []
  | c :: path => if c = '/' then '.' :: path else c :: moduleName path

/-- The name an entry is documented under, if it is not empty: its alias, else its module, else the name that the
line behind the comment declares. An empty alias still wins over the others. -/
def displayName? (e : Entry) : Option Text :=
  let name :=
    match e.alias?, e.module? with
    | some name, _ => name
    | none, some path => moduleName path
    | none, none => (e.subject.map Subject.name).getD []
  if name = [] then none else some name

end Entry

end ApiReference
