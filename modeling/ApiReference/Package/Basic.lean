import ApiReference.Text.WhiteSpace

/-!
# Packages

What a README says about the package of an API: its name and description, where its repository is, and whether it
has tests to run.
-/

namespace ApiReference

/-- Where a package is developed: a text of its own, or a record with an address or without. -/
inductive Repository
  | shorthand (address : Text)
  | detailed (url : Option Text)
deriving DecidableEq

/-- The commands of a package: the one that runs its tests. -/
structure Scripts where
  test : Option Text
deriving DecidableEq

/-- The description of a package: its name, what is said about it, where it is developed, and its commands. -/
structure Package where
  name : Text
  description : Text
  repository : Option Repository
  scripts : Option Scripts
deriving DecidableEq

/-- The address of a repository. -/
def Repository.url? : Repository → Option Text
  | .shorthand address => some address
  | .detailed url => url

namespace Package

/-- The address of the repository, if there is one. -/
def repositoryUrl? (p : Package) : Option Text :=
  p.repository.bind Repository.url?

/-- Whether there is a command that runs the tests, and it is not empty. -/
def hasTestScript (p : Package) : Bool :=
  match p.scripts.bind Scripts.test with
  | some command => !command.isEmpty
  | none => false

end Package

end ApiReference
