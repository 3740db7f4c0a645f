import MeetingLedger.Dataset.Instance

/-!
# Events

The events that change models, grouped into positions, and the log of all positions.
-/

namespace MeetingLedger

/-- Values added to or removed from list fields, by the name of the field. -/
abbrev ListChanges := SortedMap String (List Json)

/-- One change of one model. A `null` among the fields of a creation or an update removes the
field. -/
inductive Event where
  | create (fqid : Fqid) (fields : Instance)
  | update (fqid : Fqid) (fields : Instance)
  | listUpdate (fqid : Fqid) (add remove : ListChanges)
  | delete (fqid : Fqid)
  | restore (fqid : Fqid)
deriving Inhabited

namespace Event

def fqid : Event → Fqid
  | create f _ | update f _ | listUpdate f _ _ | delete f | restore f => f

def kind : Event → String
  | create .. => "create"
  | update .. => "update"
  | listUpdate .. => "list_update"
  | delete .. => "delete"
  | restore .. => "restore"

def fields? : Event → Option Instance
  | create _ fields | update _ fields => some fields
  | _ => none

def sorted : Event → Event
  | create f fields => create f fields.sorted
  | update f fields => update f fields.sorted
  | listUpdate f add remove =>
    listUpdate f (add.mapValues fun _ vs => vs.map Json.sorted)
      (remove.mapValues fun _ vs => vs.map Json.sorted)
  | e => e

end Event

/-- All events of one transaction. -/
structure Position where
  position : UInt64
  /-- Seconds since the epoch. -/
  timestamp : Int64
  userId : Option UInt64
  events : List Event
deriving Inhabited

/-- The positions of a dataset and the migration index they are written at. -/
structure EventLog where
  migrationIndex : UInt64
  positions : List Position
deriving Inhabited

inductive LogProblem where
  | outOfOrder (position previous : UInt64)
  | noEvents (position : UInt64)
deriving DecidableEq

def LogProblem.message : LogProblem → String
  | outOfOrder position previous =>
    s!"position {position.toNat} does not follow position {previous.toNat}"
  | noEvents position => s!"position {position.toNat} has no events"

namespace EventLog

/-- The first problem of positions that have to follow a given number. -/
def firstProblem? (previous : UInt64) : List Position → Option LogProblem
  | [] => none
  | p :: ps =>
    if p.position ≤ previous then some (.outOfOrder p.position previous)
    else if p.events.isEmpty then some (.noEvents p.position)
    else firstProblem? p.position ps

/-- Numbers of positions strictly increase from one on and no position is empty. -/
def problem? (log : EventLog) : Option LogProblem := firstProblem? 0 log.positions

end EventLog

end MeetingLedger
