import ApiReference.Markdown.TableReader

/-!
# Reading fenced blocks

A fenced block begins with a line of backticks and the name of a language. Its content are the lines behind it up to
the first line that closes it: at most three spaces, three or more backticks, and then only spaces and tabs. Lines are
those that Markdown counts, and the content has them with the breaks between them as they are written.

- `brokenLines` are the lines of a text with the line break behind each;
- `closesFence` says whether a line closes a block;
- `readFence?` reads one block, `readFences` the blocks of a text that follow each other with an empty line between.
-/

namespace ApiReference.Markdown

/-! ## Lines and line breaks -/

/-- A line and the line break behind it: a newline, a carriage return or the two together, or nothing behind the last
line of a text. -/
structure Line where
  text : Text
  lineBreak : Text

/-- Lines with one more character in front of the first one. -/
def extendFirstLine (c : Char) : List Line → List Line
  | [] => [⟨[c], []⟩]
  | line :: lines => ⟨c :: line.text, line.lineBreak⟩ :: lines

/-- The lines of a text as Markdown counts them, each with the line break behind it. -/
def brokenLines : Text → List Line
  | [] => [⟨[], []⟩]
  | '\r' :: '\n' :: s => ⟨[], ['\r', '\n']⟩ :: brokenLines s
  | '\n' :: s => ⟨[], ['\n']⟩ :: brokenLines s
  | '\r' :: s => ⟨[], ['\r']⟩ :: brokenLines s
  | c :: s => extendFirstLine c (brokenLines s)

/-- The text of some lines, without the line break behind the last one. -/
def linesText : List Line → Text
  | [] => []
  | [line] => line.text
  | line :: lines => line.text ++ line.lineBreak ++ linesText lines

/-! ## Blocks -/

/-- Whether a line closes a fenced block. -/
def closesFence (line : Text) : Bool :=
  let indented := line.takeWhile (· = ' ')
  let fence := line.dropWhile (· = ' ')
  indented.length ≤ 3 && 3 ≤ (fence.takeWhile (· = '`')).length &&
    (fence.dropWhile (· = '`')).all fun c => c = ' ' || c = '\t'

/-- The lines up to the first one that closes a block, and the lines behind it. -/
def untilClosed? : List Line → Option (List Line × List Line)
  | [] => none
  | line :: lines =>
    if closesFence line.text then some ([], lines)
    else (untilClosed? lines).map fun (content, rest) => (line :: content, rest)

/-- The content of the block that begins with the line `opening`, and the lines behind it. -/
def readFence? (opening : Text) : List Line → Option (Text × List Line)
  | [] => none
  | line :: lines =>
    if line.text = opening then (untilClosed? lines).map fun (content, rest) => (linesText content, rest)
    else none

theorem length_untilClosed_lt {lines content rest : List Line} (h : untilClosed? lines = some (content, rest)) :
    rest.length < lines.length := by
  induction lines generalizing content with
  | nil => simp [untilClosed?] at h
  | cons line lines ih =>
    simp only [untilClosed?] at h
    split at h
    · simp_all
    · simp only [Option.map_eq_some_iff, Prod.mk.injEq] at h
      obtain ⟨⟨content', rest'⟩, h', -, rfl⟩ := h
      exact Nat.lt_succ_of_lt (ih h')

theorem length_readFence_lt {opening content : Text} {lines rest : List Line}
    (h : readFence? opening lines = some (content, rest)) : rest.length < lines.length := by
  match lines with
  | [] => simp [readFence?] at h
  | line :: lines =>
    simp only [readFence?] at h
    split at h
    · simp only [Option.map_eq_some_iff, Prod.mk.injEq] at h
      obtain ⟨⟨content', rest'⟩, h', -, rfl⟩ := h
      exact Nat.lt_succ_of_lt (length_untilClosed_lt h')
    · simp at h

/-- The lines without an empty one in front. -/
def dropEmptyLine : List Line → List Line
  | ⟨[], _⟩ :: lines => lines
  | lines => lines

theorem length_dropEmptyLine_le (lines : List Line) : (dropEmptyLine lines).length ≤ lines.length := by
  fun_cases dropEmptyLine lines <;> simp

/-- The contents of the blocks that begin with the line `opening`, one after another with an empty line between them,
and the lines behind the last one. -/
def readFences (opening : Text) (lines : List Line) : List Text × List Line :=
  match _h : readFence? opening lines with
  | none => ([], lines)
  | some (content, rest) =>
    let (contents, last) := readFences opening (dropEmptyLine rest)
    (content :: contents, last)
termination_by lines.length
decreasing_by
  exact Nat.lt_of_le_of_lt (length_dropEmptyLine_le rest) (length_readFence_lt _h)

end ApiReference.Markdown
