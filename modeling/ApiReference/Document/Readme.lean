import ApiReference.Document.Event
import ApiReference.Package.Basic
import ApiReference.Package.Slug

/-!
# The frame of a README

A README puts a header in front of the sections and a footer behind them. Both are appended to the document written so
far, and the answer tells what was reported on the way and whether something was missing.

- `appendHeader` writes the title, the badge if it is asked for, and the description of the package;
- `appendFooter` says how to install the package and, if it has tests, how to run them.
-/

namespace ApiReference.Document

/-- A document after something was appended to it: its text, what was reported, and what was missing, if anything. -/
structure Appended where
  /-- The text of the document. -/
  text : Text
  /-- What was reported. -/
  log : List Event
  /-- What was missing. -/
  error? : Option RenderError

/-! ## Header -/

/-- The badge of a repository: an image of the state of its build that links to the build service. -/
def badge (slug : Slug) : Text :=
  let path := slug.owner ++ ['/'] ++ slug.name
  "[![build status](https://secure.travis-ci.org/".toList ++ path ++ ".png)](http://travis-ci.org/".toList ++ path ++
    [')']

/-- The title of a README. -/
def appendTitle (document : Text) (package : Package) : Text :=
  document ++ "# ".toList ++ package.name ++ "\n\n".toList

/-- The badge of a package. Nothing is appended if its repository has no address or none with a slug. -/
def appendBadge (document : Text) (package : Package) : Appended :=
  match package.repositoryUrl? with
  | none => ⟨document, [], some .urlMissing⟩
  | some url =>
    match Slug.ofUrl? url with
    | none => ⟨document, [.badge url], some (.urlUnrecognized url)⟩
    | some slug => ⟨document ++ badge slug ++ "\n\n".toList, [.badge url], none⟩

/-- The header of a README, with a badge if `withBadge` says so. It ends where the badge is missing. -/
def appendHeader (document : Text) (package : Package) (withBadge : Bool) : Appended :=
  let titled := appendTitle document package
  let badged := if withBadge then appendBadge titled package else ⟨titled, [], none⟩
  match badged.error? with
  | some _ => badged
  | none => { badged with text := badged.text ++ package.description ++ "\n\n".toList }

/-! ## Footer -/

/-- How to install a package. -/
def appendInstallation (document : Text) (package : Package) : Text :=
  document ++ "## Installation\n\n".toList ++ "Requires [nodejs](http://nodejs.org/).\n\n".toList ++
    "```sh\n$ npm install ".toList ++ package.name ++ "\n```\n\n".toList

/-- The footer of a README. -/
def appendFooter (document : Text) (package : Package) : Appended :=
  let installed := appendInstallation document package
  if package.hasTestScript then
    ⟨installed ++ "## Tests\n\n```sh\n$ npm test\n```\n\n".toList, [.tests package.name], none⟩
  else ⟨installed, [], none⟩

end ApiReference.Document
