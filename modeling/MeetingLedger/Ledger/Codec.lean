import MeetingLedger.Json.Reader
import MeetingLedger.Ledger.Event

/-!
# The JSON form of logs

Events, positions and logs as documents. Records are read member by member in the order of the
document, and the first problem wins; members with unknown names are skipped. A record may also be
a list of its values, in the order in which they are declared.
-/

namespace MeetingLedger

/-- The word that a document uses for a kind of event; an update carries either fields or changes
of list fields. -/
inductive EventWord where
  | create
  | update
  | delete
  | restore
deriving DecidableEq

/-- Why a document is no event, position or log. -/
inductive DecodeError where
  | invalidFqid (raw : String)
  | emptyUpdate (fqid : Fqid)
  | ambiguousUpdate (fqid : Fqid)
  | unexpectedPayload (word : EventWord) (fqid : Fqid)
  | repeated (member : String)
  | missing (member : String)
  | mismatch (expected : String)

namespace EventWord

def text : EventWord → String
  | create => "create"
  | update => "update"
  | delete => "delete"
  | restore => "restore"

def title : EventWord → String
  | create => "Create"
  | update => "Update"
  | delete => "Delete"
  | restore => "Restore"

def ofText? (s : String) : Option EventWord :=
  [create, update, delete, restore].find? (·.text == s)

/-- A word stands for itself or is the only member of an object, with the value `null`. -/
def ofJson? : Json → Option EventWord
  | .string s => ofText? s
  | .object [(s, .null)] => ofText? s
  | _ => none

end EventWord

def DecodeError.message : DecodeError → String
  | invalidFqid raw => Fqid.invalidMessage raw
  | emptyUpdate fqid => s!"update of {fqid} carries neither fields nor list_fields"
  | ambiguousUpdate fqid => s!"update of {fqid} carries both fields and list_fields"
  | unexpectedPayload word fqid => s!"unexpected payload on {word.title} event for {fqid}"
  | repeated member => s!"{member} is given twice"
  | missing member => s!"{member} is missing"
  | mismatch expected => s!"{expected} is expected"

namespace Decode

/-- Reads the value of a member that may be given once. -/
def once {α : Type} (name : String) (slot : Option α) (read : Except DecodeError α) :
    Except DecodeError (Option α) :=
  if slot.isSome then .error (.repeated name) else read.map some

def required {α : Type} (name : String) : Option α → Except DecodeError α
  | some a => .ok a
  | none => .error (.missing name)

def orMismatch {α : Type} (expected : String) : Option α → Except DecodeError α
  | some a => .ok a
  | none => .error (.mismatch expected)

def nullable {α : Type} (read : Json → Except DecodeError α) : Json → Except DecodeError (Option α)
  | .null => .ok none
  | v => (read v).map some

def word (v : Json) : Except DecodeError UInt64 := orMismatch "a word" v.id?

def members (v : Json) : Except DecodeError (List (String × Json)) :=
  orMismatch "an object" v.members?

/-- Reads a record into a draft: an object member by member, or a list of values for the first of
the declared names. -/
def record {δ : Type} (names : List String)
    (member : δ → String × Json → Except DecodeError δ) (draft : δ) : Json → Except DecodeError δ
  | .object ms => ms.foldlM member draft
  | .array vs => do
    let draft ← (names.zip vs).foldlM member draft
    if vs.length ≤ names.length then .ok draft else .error (.mismatch "the end of a list")
  | _ => .error (.mismatch "a record")

def items (v : Json) : Except DecodeError (List Json) := orMismatch "a list" v.array?

def fqid (v : Json) : Except DecodeError Fqid := do
  let raw ← orMismatch "a string" v.string?
  match Fqid.parse? raw with
  | some f => .ok f
  | none => .error (.invalidFqid raw)

def fields (v : Json) : Except DecodeError Instance := (members v).map SortedMap.ofList

def changes (v : Json) : Except DecodeError ListChanges := do
  let ms ← members v
  (ms.mapM fun m => (items m.2).map (m.1, ·)).map SortedMap.ofList

structure ListDraft where
  add : Option ListChanges := none
  remove : Option ListChanges := none

def listMember (draft : ListDraft) : String × Json → Except DecodeError ListDraft
  | ("add", v) => (once "add" draft.add (changes v)).map fun a => { draft with add := a }
  | ("remove", v) =>
    (once "remove" draft.remove (changes v)).map fun r => { draft with remove := r }
  | _ => .ok draft

def listFields (v : Json) : Except DecodeError (ListChanges × ListChanges) := do
  let draft ← record ["add", "remove"] listMember {} v
  .ok (draft.add.getD ∅, draft.remove.getD ∅)

structure EventDraft where
  word : Option EventWord := none
  fqid : Option Fqid := none
  fields : Option (Option Instance) := none
  lists : Option (Option (ListChanges × ListChanges)) := none

def eventMember (draft : EventDraft) : String × Json → Except DecodeError EventDraft
  | ("type", v) =>
    (once "type" draft.word (orMismatch "a kind of event" (EventWord.ofJson? v))).map
      fun w => { draft with word := w }
  | ("fqid", v) => (once "fqid" draft.fqid (fqid v)).map fun f => { draft with fqid := f }
  | ("fields", v) =>
    (once "fields" draft.fields (nullable fields v)).map fun f => { draft with fields := f }
  | ("list_fields", v) =>
    (once "list_fields" draft.lists (nullable listFields v)).map fun l => { draft with lists := l }
  | _ => .ok draft

def assemble (word : EventWord) (fqid : Fqid) (fields : Option Instance)
    (lists : Option (ListChanges × ListChanges)) : Except DecodeError Event :=
  match word, fields, lists with
  | .create, fields, none => .ok (.create fqid (fields.getD ∅))
  | .update, some fields, none => .ok (.update fqid fields)
  | .update, none, some (add, remove) => .ok (.listUpdate fqid add remove)
  | .update, none, none => .error (.emptyUpdate fqid)
  | .update, some _, some _ => .error (.ambiguousUpdate fqid)
  | .delete, none, none => .ok (.delete fqid)
  | .restore, none, none => .ok (.restore fqid)
  | word, _, _ => .error (.unexpectedPayload word fqid)

def event (v : Json) : Except DecodeError Event := do
  let draft ← record ["type", "fqid", "fields", "list_fields"] eventMember {} v
  let word ← required "type" draft.word
  let fqid ← required "fqid" draft.fqid
  assemble word fqid (draft.fields.getD none) (draft.lists.getD none)

def events (v : Json) : Except DecodeError (List Event) := do (← items v).mapM event

structure PositionDraft where
  position : Option UInt64 := none
  timestamp : Option Int64 := none
  userId : Option (Option UInt64) := none
  events : Option (List Event) := none

def positionMember (draft : PositionDraft) : String × Json → Except DecodeError PositionDraft
  | ("position", v) =>
    (once "position" draft.position (word v)).map fun p => { draft with position := p }
  | ("timestamp", v) =>
    (once "timestamp" draft.timestamp (orMismatch "a signed word" v.int64?)).map
      fun t => { draft with timestamp := t }
  | ("user_id", v) =>
    (once "user_id" draft.userId (nullable word v)).map fun u => { draft with userId := u }
  | ("events", v) => (once "events" draft.events (events v)).map fun e => { draft with events := e }
  | _ => .ok draft

def position (v : Json) : Except DecodeError Position := do
  let draft ← record ["position", "timestamp", "user_id", "events"] positionMember {} v
  .ok ⟨← required "position" draft.position, ← required "timestamp" draft.timestamp,
    draft.userId.getD none, ← required "events" draft.events⟩

def positions (v : Json) : Except DecodeError (List Position) := do (← items v).mapM position

structure LogDraft where
  migrationIndex : Option UInt64 := none
  positions : Option (List Position) := none

def logMember (draft : LogDraft) : String × Json → Except DecodeError LogDraft
  | ("migration_index", v) =>
    (once "migration_index" draft.migrationIndex (word v)).map
      fun i => { draft with migrationIndex := i }
  | ("positions", v) =>
    (once "positions" draft.positions (positions v)).map fun p => { draft with positions := p }
  | _ => .ok draft

def log (v : Json) : Except DecodeError EventLog := do
  let draft ← record ["migration_index", "positions"] logMember {} v
  .ok ⟨← required "migration_index" draft.migrationIndex, ← required "positions" draft.positions⟩

end Decode

namespace ListChanges

def toJson (changes : ListChanges) : Json := .ofMap (changes.mapValues fun _ vs => .array vs)

end ListChanges

namespace Event

def ofJson (v : Json) : Except DecodeError Event := Decode.event v

def ofText? (text : String) : Option Event := do
  ((← Json.read? text) |> Decode.event).toOption.map sorted

/-- The JSON form; changes of list fields that are empty are left out. -/
def toJson (e : Event) : Json :=
  let name := ("fqid", Json.string e.fqid.text)
  let word (w : EventWord) := ("type", Json.string w.text)
  match e with
  | create _ fields => .object [("fields", .ofMap fields), name, word .create]
  | update _ fields => .object [("fields", .ofMap fields), name, word .update]
  | listUpdate _ add remove =>
    let part (key : String) (changes : ListChanges) : List (String × Json) :=
      if changes.isEmpty then [] else [(key, changes.toJson)]
    .object [name, ("list_fields", .object (part "add" add ++ part "remove" remove)), word .update]
  | delete _ => .object [name, word .delete]
  | restore _ => .object [name, word .restore]

end Event

namespace Position

def toJson (p : Position) : Json :=
  .object ([("events", .array (p.events.map Event.toJson)), ("position", .ofUInt64 p.position),
    ("timestamp", .ofInt64 p.timestamp)] ++
    (p.userId.map fun u => ("user_id", Json.ofUInt64 u)).toList)

def sorted (p : Position) : Position := { p with events := p.events.map Event.sorted }

end Position

namespace EventLog

/-- The log that a JSON value denotes. -/
def ofJson (v : Json) : Except DecodeError EventLog := Decode.log v

def ofText? (text : String) : Option EventLog := do
  let log ← ((← Json.read? text) |> Decode.log).toOption
  some { log with positions := log.positions.map Position.sorted }

def toJson (log : EventLog) : Json :=
  .object [("migration_index", .ofUInt64 log.migrationIndex),
    ("positions", .array (log.positions.map Position.toJson))]

end EventLog

end MeetingLedger
