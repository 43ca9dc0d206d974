import ApiReference.Document.Readme
import ApiReference.Document.Section

/-!
# Rendering a document

A document holds the sections of the published entries, a divider, and the sections of the internal ones. `render`
writes it, framed as a README if that is asked for, and reports what it does.

- `Groups.ofEntries` sorts the entries by the visibility their first tag with one gives;
- `render` answers with the document or with the first thing that is missing: a package for a README, the visibility of
  an entry, the address of a repository for a badge, a slug in that address.
-/

namespace ApiReference

/-! ## Options -/

/-- What to do with an entry whose visibility is not given. -/
inductive Policy
  | /-- Refuse to render the document. -/ reject
  | /-- Take it for a published one. -/ publish
deriving DecidableEq

/-- How to render a document. -/
structure Options where
  /-- Whether to frame the document as a README. -/
  readme : Bool
  /-- Whether to add a badge to the header of a README. -/
  badge : Bool
  /-- The package that a README is about. -/
  package : Option Package
  /-- What to do with an entry whose visibility is not given. -/
  policy : Policy
deriving DecidableEq

namespace Document

/-! ## Groups -/

/-- Entries sorted by visibility, each group in the order of the input, and the warnings about those whose visibility
was not given. -/
structure Groups where
  published : List Entry
  internal : List Entry
  warnings : List Event

namespace Groups

/-- The groups with one more entry in front of one of them. -/
def insert (visibility : Visibility) (e : Entry) (g : Groups) : Groups :=
  match visibility with
  | .published => { g with published := e :: g.published }
  | .internal => { g with internal := e :: g.internal }

/-- The groups with one more warning in front. -/
def warn (event : Event) (g : Groups) : Groups :=
  { g with warnings := event :: g.warnings }

/-- The groups of a list of entries that are counted from `index`. -/
def ofEntries (policy : Policy) : (index : Nat) → List Entry → Except RenderError Groups
  | _, [] => .ok ⟨[], [], []⟩
  | index, e :: es =>
    match e.visibility?, policy with
    | some visibility, _ => (ofEntries policy (index + 1) es).map (insert visibility e)
    | none, .publish =>
      (ofEntries policy (index + 1) es).map fun g =>
        (g.insert .published e).warn (.assumedPublished index e.displayName?)
    | none, .reject => .error (.untagged index e.displayName?)

end Groups

/-- The sections of a group. An entry without a name is left out. -/
def appendGroup (document : Text) (group : List Entry) : Text :=
  group.foldl
    (fun document e =>
      match e.displayName? with
      | some name => appendEntry document name e
      | none => document)
    document

/-- What is reported about the sections of a group. -/
def groupLog (group : List Entry) : List Event :=
  group.map fun e =>
    match e.displayName? with
    | some name => .rendering name
    | none => .skipping

/-! ## The document -/

/-- The line between published and internal entries. -/
def divider : Text :=
  "## Private members\n\n".toList

/-- The package that frames the document, if it is a README. -/
def readmePackage (o : Options) : Except RenderError (Option Package) :=
  match o.readme, o.package with
  | false, _ => .ok none
  | true, some p => .ok (some p)
  | true, none => .error .packageMissing

/-- What came of rendering: a document or an error, and what was reported. -/
structure Outcome where
  result : Except RenderError Text
  log : List Event

/-- The document with its sections, given the header. -/
def appendSections (document : Text) (g : Groups) : Text :=
  appendGroup (appendGroup document g.published ++ divider) g.internal

/-- The document of sorted entries, framed by a package if there is one. -/
def renderGroups (g : Groups) (frame? : Option Package) (o : Options) : Outcome :=
  let sorted := g.warnings ++ [.sorted g.published.length g.internal.length o.readme]
  let header := (frame?.map (appendHeader [] · o.badge)).getD ⟨[], [], none⟩
  match header.error? with
  | some e => ⟨.error e, sorted ++ header.log⟩
  | none =>
    let text := appendSections header.text g
    let footer := (frame?.map (appendFooter text)).getD ⟨text, [], none⟩
    ⟨.ok footer.text, sorted ++ header.log ++ groupLog g.published ++ groupLog g.internal ++ footer.log⟩

end Document

/-- The document of a list of entries. -/
def render (entries : List Entry) (o : Options) : Document.Outcome :=
  match Document.readmePackage o with
  | .error e => ⟨.error e, []⟩
  | .ok frame? =>
    match Document.Groups.ofEntries o.policy 0 entries with
    | .error e => ⟨.error e, []⟩
    | .ok g => Document.renderGroups g frame? o

end ApiReference
