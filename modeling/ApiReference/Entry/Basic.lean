import ApiReference.Text.WhiteSpace

/-!
# Entries

An entry documents one symbol: the tags of its comment in order, the text of the comment in HTML, and what the line
behind the comment declares.
-/

namespace ApiReference

/-- Whether a symbol is part of the published API. -/
inductive Visibility
  | published
  | internal
deriving DecidableEq

/-- A parameter or a property: its name, the types it may have, the type expression as it was written, whether it may
be left out, and what is said about it, in HTML. -/
structure FieldDoc where
  name : Text
  types : List Text
  typeExpr : Text
  optional : Bool
  description : Text
deriving DecidableEq

/-- What a function returns: the types it may have, and what is said about it, in HTML. -/
structure ReturnDoc where
  types : List Text
  description : Text
deriving DecidableEq

/-- A tag of a comment. -/
inductive Tag
  | /-- The visibility of the symbol. -/ api (visibility : Visibility)
  | /-- The name to document the symbol under. -/ aliased (name : Text)
  | /-- The module that is documented. -/ inModule (path : Text)
  | /-- A parameter. -/ param (field : FieldDoc)
  | /-- A property. -/ property (field : FieldDoc)
  | /-- A piece of code that shows the symbol in use. -/ sample (code : Text)
  | /-- What the function returns. -/ returns (value : ReturnDoc)
  | /-- Any other tag. -/ other
deriving DecidableEq

/-- What a tag can be about. -/
inductive Tag.Topic
  | visibility
  | aliased
  | inModule
  | param
  | property
  | sample
  | returns
  | other
deriving DecidableEq

/-- What a tag is about. -/
def Tag.topic : Tag → Topic
  | .api _ => .visibility
  | .aliased _ => .aliased
  | .inModule _ => .inModule
  | .param _ => .param
  | .property _ => .property
  | .sample _ => .sample
  | .returns _ => .returns
  | .other => .other

/-- The text of a comment in HTML: all of it, its first paragraph and the rest. -/
structure Description where
  full : Text
  summary : Text
  body : Text
deriving DecidableEq

/-- What the line behind a comment declares: the kind of declaration, and the name. -/
structure Subject where
  kind : Text
  name : Text
deriving DecidableEq

/-- The documentation of one symbol: the tags of the comment in order, its text, and what the line behind it
declares. -/
structure Entry where
  tags : List Tag
  description : Option Description
  subject : Option Subject
deriving DecidableEq

end ApiReference
