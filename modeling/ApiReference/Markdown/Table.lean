import ApiReference.Text.Rule

/-!
# Pipe tables

A table is a list of rows, the first of which is the header. `renderTable` writes it as a pipe table in which every
row has as many cells as the header (`renderRow`). `renderCell` keeps a cell from ending its row or its column.
-/

namespace ApiReference.Markdown

/-- A carriage return and a newline become a space. -/
def carriageReturn : Text.Rule :=
  .literal ['\r', '\n'] [' '] (by decide)

/-- What a character of a cell becomes: a newline a space, and a pipe is escaped by a backslash. -/
def renderCellChar (c : Char) : Text :=
  if c = '\n' then [' '] else if c = '|' then ['\\', '|'] else [c]

/-- The text of a cell, without line breaks and with its pipes escaped. -/
def renderCell (cell : Text) : Text :=
  (carriageReturn.rewrite cell).flatMap renderCellChar

/-- A row of `width` cells between pipes, cut or padded with empty cells. -/
def renderRow (width : Nat) (cells : List Text) : Text :=
  let cells := (cells.take width).map renderCell
  let cells := cells ++ List.replicate (width - cells.length) []
  "| ".toList ++ List.intercalate " | ".toList cells ++ " |".toList

/-- The lines of a table: the header, the line that divides it from the body, and the body. -/
def tableLines (header : List Text) (body : List (List Text)) : List Text :=
  let width := header.length
  renderRow width header :: renderRow width (List.replicate width "---".toList) :: body.map (renderRow width)

/-- A pipe table whose header is the first row, without a newline at its end. No rows give no text. -/
def renderTable : List (List Text) → Text
  | [] => []
  | header :: body => List.intercalate ['\n'] (tableLines header body)

end ApiReference.Markdown
