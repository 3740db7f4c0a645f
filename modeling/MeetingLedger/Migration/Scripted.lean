import MeetingLedger.Migration.Step

/-! # Steps whose behavior is given as data, for trials of the engine -/

namespace MeetingLedger.Migration

structure EventScript where
  /-- Events of these collections are left out. -/
  drop : List String := []
  /-- Events of these collections happen twice. -/
  twice : List String := []
  /-- Events of models with these ids are refused. -/
  failIds : List UInt64 := []
  /-- Events that follow those of the first position. -/
  append : List Event := []

namespace EventScript

/-- The numbers of models seen before each event so far, and the events still to be appended. -/
structure State where
  seen : List Nat
  pending : List Event

def liveModels (h : History) : Nat := (h.models.values.filter (!·.deleted)).length

def refusal (seen : List Nat) : StepProblem :=
  .refused ("refused, models seen before each event: [" ++
    ", ".intercalate (seen.map toString) ++ "]")

/-- The events instead of an event; the first rule that applies decides. -/
def migrateEvent (script : EventScript) (e : Event) (h : History) (s : State) :
    Outcome State (Option (List Event)) :=
  let s := { s with seen := s.seen ++ [liveModels h] }
  if script.failIds.contains e.fqid.id then ⟨.error (.invalid e.fqid (refusal s.seen)), s⟩
  else if script.drop.contains e.fqid.collection then .done (some []) s
  else if script.twice.contains e.fqid.collection then .done (some [e, e]) s
  else .done none s

def toStep (script : EventScript) (target : UInt64) : EventStep where
  target
  name := "scripted_events"
  State := State
  state := ⟨[], script.append⟩
  migrateEvent := script.migrateEvent
  additionalEvents := fun _ s => .done s.pending { s with pending := [] }

end EventScript

def ModelStep.constant (requests : List ModelChange) (target : UInt64) : ModelStep where
  target
  name := "scripted_models"
  State := Unit
  state := ()
  migrateModels := fun _ s => .done requests s

end MeetingLedger.Migration
