import ApiReference.Markdown.Table

/-!
# Reading a pipe table

The inverse of writing a table: a line is a row, a pipe ends a cell unless a backslash stands in front of it, and a
cell loses a space on either side and the backslashes of its pipes.

- `readTable` gives the cells of each line;
- `foldBreaks` is what becomes of the line breaks of a cell;
- `markdownLines` are the lines as Markdown counts them, where a carriage return ends a line too.
-/

namespace ApiReference.Markdown

/-! ## Splitting -/

/-- A piece with one more character in front of it. -/
def extendFirst (c : Char) : List Text → List Text
  | [] => [[c]]
  | piece :: pieces => (c :: piece) :: pieces

/-- The pieces of a text between the characters `mark`. -/
def splitAtChar (mark : Char) : Text → List Text
  | [] => [[]]
  | c :: s => if c = mark then [] :: splitAtChar mark s else extendFirst c (splitAtChar mark s)

/-- The pieces of a line between the pipes with no backslash in front, given whether one stands in front of it. -/
def splitAtPipe : (escaped : Bool) → Text → List Text
  | _, [] => [[]]
  | escaped, c :: s =>
    if c = '|' ∧ escaped = false then [] :: splitAtPipe false s
    else extendFirst c (splitAtPipe (c = '\\') s)

/-! ## Cells and rows -/

/-- A piece without one space at its front and one at its end. -/
def unpad (piece : Text) : Text :=
  let piece := (Text.after? [' '] piece).getD piece
  if piece.getLast? = some ' ' then piece.dropLast else piece

/-- A cell with a pipe for each escaped one. -/
def unescapePipes : Text → Text
  | '\\' :: '|' :: s => '|' :: unescapePipes s
  | c :: s => c :: unescapePipes s
  | [] => []

/-- The cells of a line: the pieces but for the first and the last one, which stand outside the outer pipes. -/
def readRow (line : Text) : List Text :=
  (splitAtPipe false line).tail.dropLast.map fun piece => unescapePipes (unpad piece)

/-- The cells of the lines of a table. -/
def readTable (s : Text) : List (List Text) :=
  (splitAtChar '\n' s).map readRow

/-! ## Line breaks -/

/-- A text with a space for each line break, which is a newline or a carriage return and a newline. -/
def foldBreaks : Text → Text
  | '\r' :: '\n' :: s => ' ' :: foldBreaks s
  | '\n' :: s => ' ' :: foldBreaks s
  | c :: s => c :: foldBreaks s
  | [] => []

/-- The lines of a text as Markdown counts them: a newline, a carriage return or the two together end a line. -/
def markdownLines : Text → List Text
  | [] => [[]]
  | '\r' :: '\n' :: s => [] :: markdownLines s
  | '\n' :: s => [] :: markdownLines s
  | '\r' :: s => [] :: markdownLines s
  | c :: s => extendFirst c (markdownLines s)

end ApiReference.Markdown
