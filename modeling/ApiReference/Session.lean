import ApiReference.Document.Render
import ApiReference.Entry.Decode
import ApiReference.Package.Decode

/-!
# Sessions

A session holds entries, options and a document under construction. Commands change them one at a time
(`Session.run`, `Session.runAll`). A command that fails leaves the session as it was; the header alone keeps what it
wrote before it failed.
-/

namespace ApiReference

/-- What a session holds: entries, options, and a document under construction. -/
structure Session where
  entries : List Entry
  options : Options
  buffer : Text

/-- A command to a session. -/
inductive Command
  | /-- Replace the entries by those of a document. -/ load (document : Text)
  | /-- Add the entries of a document at the end. -/ append (document : Text)
  | /-- Add all the tags of a document to those of an entry, in front of them or behind. -/
    addTags (index : Nat) (document : Text) (inFront : Bool)
  | /-- Set the package to that of a document, or to none. -/ package (document : Option Text)
  | /-- Set all options but the package. -/ options (readme badge : Bool) (policy : Policy)
  | /-- Look up what an entry says. -/ lookup (index : Nat)
  | /-- Render the entries, apart from the document under construction. -/ render
  | /-- Append the header of a README. -/ header (badge : Bool)
  | /-- Append the footer of a README. -/ footer
  | /-- Append the section of an entry under a name. -/ entry (index : Nat) (name : Text)
  | /-- Bring the HTML of the document under construction to Markdown. -/ reformat
  | /-- Empty the document under construction. -/ clear

/-- The answer to a command that succeeded. -/
inductive Answer
  | /-- The number of entries. -/ count (n : Nat)
  | /-- An entry to look up. -/ found (e : Entry)
  | /-- The package. -/ package (p : Option Package)
  | /-- Nothing to tell. -/ done
  | /-- A rendered document. -/ rendered (document : Text)
  | /-- The document under construction. -/ buffer (document : Text)

/-- Why a command failed. -/
inductive CommandError
  | /-- A document could not be read. -/ parse (e : ParseError)
  | /-- The entries could not be rendered. -/ render (e : RenderError)
  | /-- The header is not complete; what is there of it stays in the document. -/
    header (e : RenderError) (document : Text)
  | /-- There is no entry of that number. -/ noEntry
  | /-- There is no package. -/ noPackage

namespace Session

/-- A session without entries, package and text, that refuses entries whose visibility is not given. -/
def empty : Session :=
  ⟨[], ⟨false, false, none, .reject⟩, []⟩

/-- The session with another document under construction, and that document as the answer. -/
def write (session : Session) (document : Text) : Session × Except CommandError Answer :=
  ({ session with buffer := document }, .ok (.buffer document))

/-- The session after a command, and the answer. -/
def run (session : Session) : Command → Session × Except CommandError Answer
  | .load document =>
    match Entry.parse document with
    | .error e => (session, .error (.parse e))
    | .ok es => ({ session with entries := es }, .ok (.count es.length))
  | .append document =>
    match Entry.parse document with
    | .error e => (session, .error (.parse e))
    | .ok es =>
      let es := session.entries ++ es
      ({ session with entries := es }, .ok (.count es.length))
  | .addTags index document inFront =>
    match Entry.parse document, session.entries[index]? with
    | .error e, _ => (session, .error (.parse e))
    | .ok _, none => (session, .error .noEntry)
    | .ok es, some e =>
      let added := es.flatMap Entry.tags
      let e := { e with tags := if inFront then added ++ e.tags else e.tags ++ added }
      ({ session with entries := session.entries.set index e }, .ok (.found e))
  | .package none =>
    ({ session with options := { session.options with package := none } }, .ok (.package none))
  | .package (some document) =>
    match Package.parse document with
    | .error e => (session, .error (.parse e))
    | .ok p => ({ session with options := { session.options with package := some p } }, .ok (.package (some p)))
  | .options readme badge policy =>
    ({ session with options := { session.options with readme, badge, policy } }, .ok .done)
  | .lookup index =>
    match session.entries[index]? with
    | none => (session, .error .noEntry)
    | some e => (session, .ok (.found e))
  | .render =>
    match (ApiReference.render session.entries session.options).result with
    | .error e => (session, .error (.render e))
    | .ok document => (session, .ok (.rendered document))
  | .header badge =>
    match session.options.package with
    | none => (session, .error .noPackage)
    | some p =>
      let header := Document.appendHeader session.buffer p badge
      match header.error? with
      | some e => ({ session with buffer := header.text }, .error (.header e header.text))
      | none => session.write header.text
  | .footer =>
    match session.options.package with
    | none => (session, .error .noPackage)
    | some p => session.write (Document.appendFooter session.buffer p).text
  | .entry index name =>
    match session.entries[index]? with
    | none => (session, .error .noEntry)
    | some e => session.write (Document.appendEntry session.buffer name e)
  | .reformat => session.write (Html.toMarkdown session.buffer)
  | .clear => session.write []

/-- The answers to commands that are given one after another. -/
def runAll (session : Session) : List Command → List (Except CommandError Answer)
  | [] => []
  | command :: commands =>
    let (session, answer) := session.run command
    answer :: runAll session commands

end Session

end ApiReference
