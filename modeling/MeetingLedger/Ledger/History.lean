import MeetingLedger.Dataset.Snapshot
import MeetingLedger.Ledger.Event

/-! # The state that events leave: every model ever created, deleted ones included -/

namespace MeetingLedger

/-- What an event asked of a model that does not exist. -/
inductive Access where
  | update
  | delete
  | restore
deriving DecidableEq

inductive HistoryError where
  | alreadyExists (fqid : Fqid)
  | notFound (access : Access) (fqid : Fqid)
  | notDeleted (fqid : Fqid)
  | notAList (fqid : Fqid) (field : String)
deriving DecidableEq

def Access.word : Access → String
  | update => "update"
  | delete => "delete"
  | restore => "restore"

def HistoryError.message : HistoryError → String
  | alreadyExists fqid => s!"cannot create {fqid}: model already exists"
  | notFound access fqid => s!"cannot {access.word} {fqid}: model does not exist"
  | notDeleted fqid => s!"cannot restore {fqid}: model is not deleted"
  | notAList fqid field =>
    s!"cannot update list field {field} of {fqid}: current value is not a list"

/-- The fields of a model and whether it is deleted. -/
structure Model where
  fields : Instance
  deleted : Bool

/-- Every model ever created. -/
structure History where
  models : SortedMap Fqid Model

namespace Instance

/-- Writes fields one by one: a `null` removes the field, and the id never changes. -/
def merge (i : Instance) (fields : Instance) : Instance :=
  fields.entries.foldl
    (fun i e => if e.1 = "id" then i else if e.2.isNull then i.erase e.1 else i.insert e.1 e.2) i

/-- The list that a field holds, empty if the field is absent, `none` if it holds no list. -/
def listAt? (i : Instance) (field : String) : Option (List Json) :=
  match i.get? field with
  | none => some []
  | some v => v.array?

def appendNew (items values : List Json) : List Json :=
  values.foldl (fun items v => if items.contains v then items else items ++ [v]) items

/-- Adds values field by field; stops at the first field that holds no list. -/
def addValues : List (String × List Json) → Instance → Instance × Option String
  | [], i => (i, none)
  | (field, values) :: rest, i =>
    match i.listAt? field with
    | none => (i, some field)
    | some items => addValues rest (i.insert field (.array (appendNew items values)))

def removeValues : List (String × List Json) → Instance → Instance × Option String
  | [], i => (i, none)
  | (field, values) :: rest, i =>
    if i.contains field then
      match i.listAt? field with
      | none => (i, some field)
      | some items =>
        removeValues rest (i.insert field (.array (items.filter (!values.contains ·))))
    else removeValues rest i

/-- Adds and then removes values; the changes before a field that holds no list stay. -/
def changeLists (add remove : ListChanges) (i : Instance) : Instance × Option String :=
  match addValues add.entries i with
  | (i, some field) => (i, some field)
  | (i, none) => removeValues remove.entries i

end Instance

/-- The history that an attempt to apply events leaves and, if one was refused, why. -/
structure Attempt where
  history : History
  refusal : Option HistoryError

namespace Attempt

def toExcept (a : Attempt) : Except HistoryError History :=
  match a.refusal with
  | none => .ok a.history
  | some e => .error e

end Attempt

namespace History

def empty : History := ⟨∅⟩

instance : Inhabited History := ⟨empty⟩

def get? (h : History) (f : Fqid) : Option Instance :=
  (h.models.get? f).bind fun m => if m.deleted then none else some m.fields

def getIncludingDeleted? (h : History) (f : Fqid) : Option Instance :=
  (h.models.get? f).map (·.fields)

def hasLive (h : History) (f : Fqid) : Bool := (h.get? f).isSome

def isDeleted (h : History) (f : Fqid) : Bool := (h.models.get? f).any (·.deleted)

def put (h : History) (f : Fqid) (fields : Instance) (deleted : Bool) : History :=
  ⟨h.models.insert f ⟨fields, deleted⟩⟩

/-- The fields of a model right after its creation. -/
def created (f : Fqid) (fields : Instance) : Instance :=
  Instance.merge ((∅ : Instance).insert "id" (.ofUInt64 f.id)) fields

/-- Applies one event. A refused event changes nothing, except that a list update keeps the
fields that it changed before the one that holds no list. -/
def apply (h : History) : Event → Attempt
  | .create f fields =>
    if h.models.contains f then ⟨h, some (.alreadyExists f)⟩
    else ⟨h.put f (created f fields) false, none⟩
  | .update f fields =>
    match h.get? f with
    | none => ⟨h, some (.notFound .update f)⟩
    | some i => ⟨h.put f (i.merge fields) false, none⟩
  | .listUpdate f add remove =>
    match h.get? f with
    | none => ⟨h, some (.notFound .update f)⟩
    | some i =>
      let (i, failed) := i.changeLists add remove
      ⟨h.put f i false, failed.map (.notAList f)⟩
  | .delete f =>
    match h.get? f with
    | none => ⟨h, some (.notFound .delete f)⟩
    | some i => ⟨h.put f i true, none⟩
  | .restore f =>
    match h.models.get? f with
    | none => ⟨h, some (.notFound .restore f)⟩
    | some m =>
      if m.deleted then ⟨h.put f m.fields false, none⟩ else ⟨h, some (.notDeleted f)⟩

/-- Applies events in order and stops at the first that is refused. -/
def applyAll (h : History) : List Event → Attempt
  | [] => ⟨h, none⟩
  | e :: es =>
    match h.apply e with
    | ⟨h, none⟩ => h.applyAll es
    | refused => refused

/-- The history of the events of all positions. -/
def replay (positions : List Position) : Except HistoryError History :=
  (empty.applyAll (positions.flatMap (·.events))).toExcept

/-- The models of a collection, deleted ones included: in the order of models they follow each
other, from the smallest id on. -/
def block (h : History) (name : String) : List (Fqid × Model) :=
  (h.models.entries.dropWhile fun e => compare e.1 ⟨name, 0⟩ == .lt).takeWhile
    fun e => e.1.collection == name

def collection (h : History) (name : String) : List (UInt64 × Instance) :=
  ((h.block name).filter fun e => !e.2.deleted).map fun e => (e.1.id, e.2.fields)

/-- The highest id that a collection ever used, zero if it used none. -/
def maxId (h : History) (name : String) : UInt64 :=
  ((h.block name).getLast?.map (·.1.id)).getD 0

/-- The models that are not deleted, at a migration index. -/
def toSnapshot (h : History) (migrationIndex : UInt64) : Snapshot :=
  h.models.entries.foldl
    (fun s (f, m) => if m.deleted then s else s.insert f.collection f.id m.fields)
    (.empty migrationIndex)

end History

end MeetingLedger
