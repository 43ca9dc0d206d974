import ApiReference.Text.Scan

/-!
# The slug of a repository

The slug of a repository is what a build service calls it: its owner and its name. `Slug.ofUrl?` finds them at the end
of an address, as in `https://host/owner/name.git` and `git@host:owner/name.git`.
-/

namespace ApiReference

/-- The owner and the name of a repository. -/
structure Slug where
  /-- The owner. -/
  owner : Text
  /-- The name. -/
  name : Text
deriving DecidableEq

namespace Slug

/-- The characters that stand neither in an owner nor in a name. -/
def isSeparator (c : Char) : Bool :=
  c ∈ ['(', '.', '|', '/', ':', ')']

/-- The longest front of a text without separators, if it is not empty, and the text behind it. -/
def segment? (s : Text) : Option (Text × Text) :=
  let segment := s.takeWhile (!isSeparator ·)
  if segment.isEmpty then none else some (segment, s.dropWhile (!isSeparator ·))

/-- The slug that a text consists of: an owner, a slash, a name and `.git`. -/
def ofSuffix? (s : Text) : Option Slug := do
  let (owner, s) ← segment? s
  let (name, s) ← segment? (← Text.after? ['/'] s)
  if s = ".git".toList then some ⟨owner, name⟩ else none

/-- The slug at the end of an address, with as long an owner as there is. -/
def ofUrl? : (url : Text) → Option Slug
  | [] => none
  | c :: url =>
    match ofSuffix? (c :: url) with
    | some slug => some slug
    | none => ofUrl? url

/-- A slug is looked for at the front first, and then in the rest. -/
theorem ofUrl_cons (c : Char) (url : Text) : ofUrl? (c :: url) = (ofSuffix? (c :: url)).or (ofUrl? url) := by
  show (match ofSuffix? (c :: url) with | some slug => some slug | none => ofUrl? url) = _
  cases ofSuffix? (c :: url) <;> rfl

end Slug

end ApiReference
