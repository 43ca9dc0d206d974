import ApiReference.Entry.Lookup
import ApiReference.Html.ToMarkdown
import ApiReference.Markdown.Table

/-!
# The section of an entry

The section of an entry is appended to the document written so far: a heading with the names of the parameters, the
description, a table each for parameters and properties, the samples in fences and a line on the returned value. What
an entry does not have is left out, and every part ends with an empty line.
-/

namespace ApiReference.Document

/-! ## Heading and description -/

/-- A heading: the name and, if there are parameters, their names in parentheses. -/
def appendHeading (document : Text) (name : Text) (params : List FieldDoc) : Text :=
  let arguments := List.intercalate ", ".toList (params.map FieldDoc.name)
  if params.isEmpty then document ++ "### ".toList ++ name ++ "\n\n".toList
  else document ++ "### ".toList ++ name ++ ['('] ++ arguments ++ ")\n\n".toList

/-- A paragraph whose text is given in HTML, unless nothing is left of it. -/
def appendParagraph (document : Text) (html : Text) : Text :=
  let text := Html.toMarkdown html
  if text.isEmpty then document else document ++ text ++ "\n\n".toList

/-! ## Tables -/

/-- The types of a field as a cell shows them: a type expression in braces as it was written, with a slash for each
pipe, else the types. -/
def typeCell (field : FieldDoc) : Text :=
  match field.typeExpr with
  | '\x7b' :: _ => field.typeExpr.map fun c => if c = '|' then '/' else c
  | _ => List.intercalate [','] field.types

/-- The row of a field: its name, its types and what is said about it. -/
def fieldRow (field : FieldDoc) : List Text :=
  let mark := if field.optional then "_optional:_ ".toList else []
  [field.name, typeCell field, mark ++ Html.toMarkdown field.description]

/-- A table of fields under a heading, unless there are none. -/
def appendFields (document : Text) (title column : Text) (fields : List FieldDoc) : Text :=
  if fields.isEmpty then document
  else
    let header := [column, "type".toList, "description".toList]
    document ++ "### ".toList ++ title ++ "\n\n".toList ++
      Markdown.renderTable (header :: fields.map fieldRow) ++ "\n\n".toList

/-! ## Samples and returned value -/

/-- A piece of code in a fence. -/
def appendSample (document : Text) (code : Text) : Text :=
  document ++ "```js\n".toList ++ code ++ "\n```\n\n".toList

/-- The samples under a heading, unless there are none. -/
def appendSamples (document : Text) (samples : List Text) : Text :=
  if samples.isEmpty then document
  else samples.foldl appendSample (document ++ "### Example\n\n".toList)

/-- A line on the returned value, if there is one: its types and what is said about it. -/
def appendReturns (document : Text) : Option ReturnDoc → Text
  | none => document
  | some value =>
    let types := List.intercalate [','] value.types
    let line := "**Returns** `".toList ++ types ++ "`, ".toList ++ Html.toMarkdown value.description
    document ++ Text.trimEnd line ++ "\n\n".toList

/-! ## The section -/

/-- The section of an entry under a name. -/
def appendEntry (document : Text) (name : Text) (e : Entry) : Text :=
  let document := appendHeading document name e.params
  let document := appendParagraph document ((e.description.map Description.full).getD [])
  let document := appendFields document "Parameters".toList "param".toList e.params
  let document := appendFields document "Properties".toList "property".toList e.properties
  let document := appendSamples document e.samples
  appendReturns document e.returns?

end ApiReference.Document
