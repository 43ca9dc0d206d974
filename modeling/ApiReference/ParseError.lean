import ApiReference.Text.WhiteSpace

/-!
# Documents that cannot be read

Two kinds of documents are read: the entries of an API and the description of its package. A document that is no
JSON, or whose values have other types than its fields, is refused as a whole.
-/

namespace ApiReference

/-- The kind of document that was refused. -/
inductive ParseError
  | /-- The list of entries. -/ entries
  | /-- The description of the package. -/ package
deriving DecidableEq

/-- The text of the error. -/
def ParseError.message : ParseError → Text
  | .entries => "failed to parse dox JSON".toList
  | .package => "failed to parse package descriptor".toList

end ApiReference
