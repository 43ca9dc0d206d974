import ApiReference.Text.WhiteSpace

/-!
# Errors and events

Why a document cannot be rendered (`RenderError`), and what rendering reports on its way (`Event`).
-/

namespace ApiReference

/-! ## Errors -/

/-- Why a document cannot be rendered. -/
inductive RenderError
  | /-- A README was asked for without a package. -/ packageMissing
  | /-- A badge was asked for, but the package has no repository with an address. -/ urlMissing
  | /-- A badge was asked for, but no slug is found at the end of the address. -/ urlUnrecognized (url : Text)
  | /-- The visibility of an entry is not given. Entries are counted from zero. -/
    untagged (index : Nat) (name : Option Text)
deriving DecidableEq

/-- The text of the error. -/
def RenderError.message : RenderError → Text
  | .packageMissing => "a package descriptor is required to render a README".toList
  | .urlMissing => "a repository url is required to render the build badge".toList
  | .urlUnrecognized url => "cannot find <org>/<repo>.git in repository url: ".toList ++ url
  | .untagged index name =>
    "entry ".toList ++ Nat.toDigits 10 index ++ " (".toList ++ name.getD "<unnamed>".toList ++
      ") has no @api tag".toList

/-! ## Events -/

/-- What rendering reports. -/
inductive Event
  | /-- An entry without visibility is taken for a published one. -/ assumedPublished (index : Nat) (name : Option Text)
  | /-- The entries are sorted into groups of these sizes. -/ sorted (published internal : Nat) (readme : Bool)
  | /-- A badge is added for the repository at this address. -/ badge (url : Text)
  | /-- An entry is rendered under this name. -/ rendering (name : Text)
  | /-- An entry without a name is left out. -/ skipping
  | /-- The section on tests is added for this package. -/ tests (package : Text)
deriving DecidableEq

/-- How important an event is. -/
inductive Event.Level
  | debug
  | warn
deriving DecidableEq

/-- An assumption is worth a warning; all else is for those who look for it. -/
def Event.level : Event → Level
  | .assumedPublished .. => .warn
  | _ => .debug

/-- The text of the event. -/
def Event.message : Event → Text
  | .assumedPublished .. => "entry has no @api tag, assuming public".toList
  | .sorted .. => "partitioned entries".toList
  | .badge .. => "adding build badge".toList
  | .rendering .. => "rendering entry".toList
  | .skipping => "skipping entry without a name".toList
  | .tests .. => "adding tests section".toList

end ApiReference
