import ApiReference.Proofs.Document.Appending
import ApiReference.Proofs.Document.Header
import ApiReference.Session

/-!
# Sessions, one command and many

What a command can do is said once (`Session.Step`, `step_run`), and what holds of one command is said of all commands
of a session by induction on them (`Session.after`).

- a command that fails leaves the session as it was, but for an incomplete header, which leaves the title
  (`Step.eq_of_error`, `Step.eq_of_incomplete`), so it can be left out with no other answer changed (`runAll_without`);
- entries, options and document are changed by the commands for them alone (`entries_after`, `options_after`,
  `buffer_after`), and what is written of a document stays until it is brought to Markdown or emptied (`prefix_after`);
- what an answer tells of the session is so (`Step.tells`, `tells_runAll`), and does not depend on the commands behind
  it (`getElem?_runAll`).
-/

namespace ApiReference

/-! ## Commands and answers -/

namespace Command

/-- The commands that change the entries. -/
def changesEntries : Command → Bool
  | .load _ | .append _ | .addTags .. => true
  | _ => false

/-- The commands that change the options. -/
def changesOptions : Command → Bool
  | .package _ | .options .. => true
  | _ => false

/-- The commands that append to the document under construction. -/
def appends : Command → Bool
  | .header _ | .footer | .entry .. => true
  | _ => false

/-- The commands that change what is written already of the document under construction. -/
def rewrites : Command → Bool
  | .reformat | .clear => true
  | _ => false

end Command

/-- The document under construction, where it changed although the command failed. -/
def CommandError.document? : CommandError → Option Text
  | .header _ document => some document
  | _ => none

/-- What an answer tells of a session. -/
def Answer.Tells (session : Session) : Answer → Prop
  | .count n => session.entries.length = n
  | .found e => e ∈ session.entries
  | .package p => session.options.package = p
  | .done => True
  | .rendered document => (ApiReference.render session.entries session.options).result = .ok document
  | .buffer document => session.buffer = document

namespace Session

open Document (appendEntry appendEntry_eq appendFooter appendFooter_eq appendHeader appendHeader_eq titleText)

variable {session : Session} {command : Command} {e : CommandError}

/-! ## One command -/

/-- What a command can do: the session after it, and the answer. -/
inductive Step (session : Session) : Command → Session × Except CommandError Answer → Prop
  | load {document : Text} {es : List Entry} (h : Entry.parse document = .ok es) :
      Step session (.load document) ({ session with entries := es }, .ok (.count es.length))
  | append {document : Text} {es : List Entry} (h : Entry.parse document = .ok es) :
      Step session (.append document)
        ({ session with entries := session.entries ++ es }, .ok (.count (session.entries ++ es).length))
  | addTags {index : Nat} {document : Text} {inFront : Bool} {es : List Entry} {e : Entry}
      (h : Entry.parse document = .ok es) (he : session.entries[index]? = some e) {tags : List Tag}
      (htags : tags = if inFront then es.flatMap Entry.tags ++ e.tags else e.tags ++ es.flatMap Entry.tags) :
      Step session (.addTags index document inFront)
        ({ session with entries := session.entries.set index { e with tags } }, .ok (.found { e with tags }))
  | package {document? : Option Text} {p : Option Package} (h : document?.map Package.parse = p.map .ok) :
      Step session (.package document?)
        ({ session with options := { session.options with package := p } }, .ok (.package p))
  | options {readme badge : Bool} {policy : Policy} :
      Step session (.options readme badge policy)
        ({ session with options := { session.options with readme, badge, policy } }, .ok .done)
  | lookup {index : Nat} {e : Entry} (he : session.entries[index]? = some e) :
      Step session (.lookup index) (session, .ok (.found e))
  | render {document : Text} (h : (ApiReference.render session.entries session.options).result = .ok document) :
      Step session .render (session, .ok (.rendered document))
  | header {badge : Bool} {p : Package} (hp : session.options.package = some p)
      (h : (appendHeader [] p badge).error? = none) :
      Step session (.header badge) (session.write (session.buffer ++ (appendHeader [] p badge).text))
  | footer {p : Package} (hp : session.options.package = some p) :
      Step session .footer (session.write (session.buffer ++ (appendFooter [] p).text))
  | entry {index : Nat} {name : Text} {e : Entry} (he : session.entries[index]? = some e) :
      Step session (.entry index name) (session.write (session.buffer ++ appendEntry [] name e))
  | reformat : Step session .reformat (session.write (Html.toMarkdown session.buffer))
  | clear : Step session .clear (session.write [])
  | incomplete {badge : Bool} {p : Package} (hp : session.options.package = some p) {e : RenderError}
      (h : (appendHeader [] p badge).error? = some e) :
      Step session (.header badge) ({ session with buffer := session.buffer ++ titleText p },
        .error (.header e (session.buffer ++ titleText p)))
  | failed {command : Command} {e : CommandError} (h : e.document? = none) : Step session command (session, .error e)

/-- **Each command does one of these things.** -/
theorem step_run (session : Session) (command : Command) : Step session command (session.run command) := by
  cases command with
  | load document =>
    rw [run]
    cases h : Entry.parse document with
    | error e => exact .failed rfl
    | ok es => exact .load h
  | append document =>
    rw [run]
    cases h : Entry.parse document with
    | error e => exact .failed rfl
    | ok es => exact .append h
  | addTags index document inFront =>
    rw [run]
    cases h : Entry.parse document with
    | error e => exact .failed rfl
    | ok es =>
      cases he : session.entries[index]? with
      | none => exact .failed rfl
      | some e => exact .addTags h he rfl
  | package document? =>
    cases document? with
    | none => exact .package rfl
    | some document =>
      rw [run]
      cases h : Package.parse document with
      | error e => exact .failed rfl
      | ok p => exact .package (congrArg some h)
  | options readme badge policy => exact .options
  | lookup index =>
    rw [run]
    cases he : session.entries[index]? with
    | none => exact .failed rfl
    | some e => exact .lookup he
  | render =>
    rw [run]
    cases h : (ApiReference.render session.entries session.options).result with
    | error e => exact .failed rfl
    | ok document => exact .render h
  | header badge =>
    cases hp : session.options.package with
    | none =>
      simp only [run, hp]
      exact .failed rfl
    | some p =>
      have herror : (appendHeader session.buffer p badge).error? = (appendHeader [] p badge).error? := by
        rw [appendHeader_eq]
      cases he : (appendHeader session.buffer p badge).error? with
      | none =>
        simp only [run, hp, he]
        rw [appendHeader_eq]
        exact .header hp (herror.symm.trans he)
      | some e =>
        simp only [run, hp, he]
        rw [Document.text_of_incomplete (by rw [he]; exact Option.some_ne_none e)]
        exact .incomplete hp (herror.symm.trans he)
  | footer =>
    cases hp : session.options.package with
    | none =>
      simp only [run, hp]
      exact .failed rfl
    | some p =>
      simp only [run, hp]
      rw [appendFooter_eq]
      exact .footer hp
  | entry index name =>
    cases he : session.entries[index]? with
    | none =>
      simp only [run, he]
      exact .failed rfl
    | some e =>
      simp only [run, he]
      rw [appendEntry_eq]
      exact .entry he
  | reformat => exact .reformat
  | clear => exact .clear

namespace Step

variable {result : Session × Except CommandError Answer}

/-- **A command that fails leaves the session as it was**, but for a header that is not complete. -/
theorem eq_of_error (h : Step session command result) (he : result.2 = .error e) (hdocument : e.document? = none) :
    result.1 = session := by
  cases h with
  | incomplete =>
    obtain rfl := Except.error.inj he
    cases hdocument
  | failed => rfl
  | _ => cases he

/-- A header that is not complete leaves its title in the document, and nothing else changes. -/
theorem eq_of_incomplete {document : Text} (h : Step session command result) (he : result.2 = .error e)
    (hdocument : e.document? = some document) :
    ∃ badge p, command = .header badge ∧ session.options.package = some p ∧
      document = session.buffer ++ titleText p ∧ result.1 = { session with buffer := document } := by
  cases h with
  | incomplete hp =>
    obtain rfl := Except.error.inj he
    obtain rfl := Option.some.inj hdocument
    exact ⟨_, _, rfl, hp, rfl, rfl⟩
  | failed hnone =>
    obtain rfl := Except.error.inj he
    rw [hnone] at hdocument
    cases hdocument
  | _ => cases he

theorem entries_eq (h : Step session command result) (hcommand : command.changesEntries = false) :
    result.1.entries = session.entries := by
  cases h with
  | load | append | addTags => cases hcommand
  | _ => rfl

theorem options_eq (h : Step session command result) (hcommand : command.changesOptions = false) :
    result.1.options = session.options := by
  cases h with
  | package | options => cases hcommand
  | _ => rfl

theorem buffer_eq (h : Step session command result) (hcommand : command.appends = false)
    (hrewrites : command.rewrites = false) : result.1.buffer = session.buffer := by
  cases h with
  | header | footer | entry | incomplete => cases hcommand
  | reformat | clear => cases hrewrites
  | _ => rfl

/-- What is written already stays. -/
theorem buffer_grows (h : Step session command result) (hcommand : command.rewrites = false) :
    session.buffer <+: result.1.buffer := by
  cases h with
  | header | footer | entry | incomplete => exact List.prefix_append _ _
  | reformat | clear => cases hcommand
  | _ => exact List.prefix_refl _

/-- **What an answer tells is so** after the command. -/
theorem tells {answer : Answer} (h : Step session command result) (ha : result.2 = .ok answer) :
    answer.Tells result.1 := by
  cases h with
  | addTags _ he =>
    obtain rfl := Except.ok.inj ha
    have hindex := (List.getElem?_eq_some_iff.mp he).1
    exact List.mem_set hindex _
  | lookup he =>
    obtain rfl := Except.ok.inj ha
    exact List.mem_of_getElem? he
  | render h =>
    obtain rfl := Except.ok.inj ha
    exact h
  | options =>
    obtain rfl := Except.ok.inj ha
    trivial
  | incomplete | failed => cases ha
  | _ =>
    obtain rfl := Except.ok.inj ha
    rfl

end Step

/-! ## Many commands -/

/-- The session after commands that are given one after another. -/
def after (session : Session) (commands : List Command) : Session :=
  commands.foldl (fun session command => (session.run command).1) session

theorem after_append (session : Session) (front back : List Command) :
    session.after (front ++ back) = (session.after front).after back :=
  List.foldl_append

theorem runAll_append (session : Session) (front back : List Command) :
    session.runAll (front ++ back) = session.runAll front ++ (session.after front).runAll back := by
  induction front generalizing session with
  | nil => rfl
  | cons command front ih => exact congrArg (_ :: ·) (ih _)

/-- An answer depends on the command and on those in front of it, and on none behind it. -/
theorem getElem?_runAll (session : Session) (commands : List Command) (i : Nat) :
    (session.runAll commands)[i]? =
      commands[i]?.map fun command => ((session.after (commands.take i)).run command).2 := by
  induction commands generalizing session i with
  | nil => rfl
  | cons command commands ih =>
    cases i with
    | zero => rfl
    | succ i => exact ih _ i

/-- **A command that fails can be left out** with no other answer and no session changed, if it is not a header that is
not complete. -/
theorem runAll_without {front : List Command} (h : ((session.after front).run command).2 = .error e)
    (hdocument : e.document? = none) (back : List Command) :
    session.after (front ++ command :: back) = session.after (front ++ back) ∧
      session.runAll (front ++ command :: back) =
        session.runAll front ++ .error e :: (session.after front).runAll back := by
  have hsame := (step_run (session.after front) command).eq_of_error h hdocument
  constructor
  · rw [after_append, after_append]
    show ((session.after front).run command).1.after back = _
    rw [hsame]
  · rw [runAll_append]
    show _ ++ ((session.after front).run command).2 :: ((session.after front).run command).1.runAll back = _
    rw [h, hsame]

/-- What every command keeps is kept by all of them. -/
theorem after_induction {R : Session → Session → Prop} (hrefl : ∀ s, R s s) (htrans : ∀ s t u, R s t → R t u → R s u)
    {commands : List Command} (h : ∀ command ∈ commands, ∀ s, R s (Session.run s command).1) (session : Session) :
    R session (session.after commands) := by
  induction commands generalizing session with
  | nil => exact hrefl session
  | cons command commands ih =>
    obtain ⟨hcommand, hcommands⟩ := List.forall_mem_cons.mp h
    exact htrans _ _ _ (hcommand session) (ih hcommands _)

theorem entries_after {commands : List Command} (h : ∀ command ∈ commands, command.changesEntries = false) :
    (session.after commands).entries = session.entries :=
  after_induction (R := fun s t => t.entries = s.entries) (fun _ => rfl) (fun _ _ _ h h' => h'.trans h)
    (fun command hc s => (step_run s command).entries_eq (h command hc)) session

theorem options_after {commands : List Command} (h : ∀ command ∈ commands, command.changesOptions = false) :
    (session.after commands).options = session.options :=
  after_induction (R := fun s t => t.options = s.options) (fun _ => rfl) (fun _ _ _ h h' => h'.trans h)
    (fun command hc s => (step_run s command).options_eq (h command hc)) session

theorem buffer_after {commands : List Command}
    (h : ∀ command ∈ commands, command.appends = false ∧ command.rewrites = false) :
    (session.after commands).buffer = session.buffer :=
  after_induction (R := fun s t => t.buffer = s.buffer) (fun _ => rfl) (fun _ _ _ h h' => h'.trans h)
    (fun command hc s => (step_run s command).buffer_eq (h command hc).1 (h command hc).2) session

/-- **What is written stays** in front of all that is written later, as long as the document is neither brought to
Markdown nor emptied. -/
theorem prefix_after {commands : List Command} (h : ∀ command ∈ commands, command.rewrites = false) :
    session.buffer <+: (session.after commands).buffer :=
  after_induction (R := fun s t => s.buffer <+: t.buffer) (fun _ => List.prefix_refl _)
    (fun _ _ _ h h' => h.trans h') (fun command hc s => (step_run s command).buffer_grows (h command hc)) session

/-- **What the answers tell is so** of the sessions in which they are given. -/
theorem tells_runAll {commands : List Command} {i : Nat} {answer : Answer}
    (h : (session.runAll commands)[i]? = some (.ok answer)) : answer.Tells (session.after (commands.take (i + 1))) := by
  rw [getElem?_runAll, Option.map_eq_some_iff] at h
  obtain ⟨command, hcommand, ha⟩ := h
  have htake : commands.take (i + 1) = commands.take i ++ [command] := by
    rw [List.take_add_one, hcommand]
    rfl
  rw [htake, after_append]
  exact (step_run _ command).tells ha

end Session

end ApiReference
