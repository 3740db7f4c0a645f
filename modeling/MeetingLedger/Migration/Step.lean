import MeetingLedger.Ledger.History
import MeetingLedger.Schema.Registry

/-!
# Migration steps

There are two kinds of steps. An event step changes a log event by event and may carry a state of
its own from one event to the next; a model step looks at the models that a log leaves and asks for
changes to them.
-/

namespace MeetingLedger.Migration

open Schema

/-- What a step cannot make sense of in a model. -/
inductive StepProblem where
  | committeeId (field : String)
  | managementLevel (field : String) (found : Json)
  | cycle
  | refused (reason : String)

/-- Why a step did not get to its end. -/
inductive StepError where
  | invalid (model : Fqid) (problem : StepProblem)
  | history (e : HistoryError)
  /-- No number is left for a new position. Nobody is told of this: the program stops. -/
  | overflow

def StepProblem.message : StepProblem → String
  | committeeId field => s!"{field}: invalid committee id"
  | managementLevel field found => s!"{field}: unknown management level {found.compact}"
  | cycle => "mediafile tree contains a cycle"
  | refused reason => reason

def StepError.message : StepError → String
  | invalid model problem => s!"{model}: {problem.message}"
  | history e => e.message
  | overflow => "attempt to add with overflow"

/-- The result of an action and the state that it leaves, which a failure does not undo. -/
structure Outcome (σ α : Type) where
  result : Except StepError α
  state : σ

namespace Outcome

variable {σ α β : Type}

def done (a : α) (s : σ) : Outcome σ α := ⟨.ok a, s⟩

def andThen (o : Outcome σ α) (next : α → σ → Outcome σ β) : Outcome σ β :=
  match o.result with
  | .ok a => next a o.state
  | .error e => ⟨.error e, o.state⟩

end Outcome

/-- A step that replaces individual events. -/
structure EventStep where
  /-- The migration index that the step leads to. -/
  target : UInt64
  name : String
  State : Type
  state : State
  /-- Runs once before the first position, with the registry that the result is checked
  against. -/
  prepare : Registry → State → State := fun _ s => s
  /-- Runs before the events of each position. -/
  openPosition : History → State → State := fun _ s => s
  /-- The events that replace an event, `none` to keep it. -/
  migrateEvent : Event → History → State → Outcome State (Option (List Event))
  /-- The events that follow those of a position. -/
  additionalEvents : History → State → Outcome State (List Event) := fun _ s => .done [] s

inductive ModelChange where
  | create (model : Fqid) (fields : Instance)
  | update (model : Fqid) (fields : Instance)
  | delete (model : Fqid)
  | restore (model : Fqid)

namespace ModelChange

/-- The event that makes the change. -/
def toEvent : ModelChange → Event
  | create f fields => .create f fields
  | update f fields => .update f fields
  | delete f => .delete f
  | restore f => .restore f

/-- The change that an event makes; lists cannot be changed value by value. -/
def ofEvent? : Event → Option ModelChange
  | .create f fields => some (create f fields)
  | .update f fields => some (update f fields)
  | .delete f => some (delete f)
  | .restore f => some (restore f)
  | .listUpdate .. => none

end ModelChange

/-- A step that works on the models that a whole log leaves. -/
structure ModelStep where
  /-- The migration index that the step leads to. -/
  target : UInt64
  name : String
  State : Type
  state : State
  migrateModels : History → State → Outcome State (List ModelChange)

/-- A step of either kind. -/
inductive Step where
  | event (s : EventStep)
  | model (s : ModelStep)

namespace Step

def target : Step → UInt64
  | event s => s.target
  | model s => s.target

def name : Step → String
  | event s => s.name
  | model s => s.name

def shape : Step → String
  | event _ => "event"
  | model _ => "model"

def inspect (s : Step) : String :=
  s!"MigrationStep \x7b target: {s.target.toNat}, name: " ++ Json.quoted s.name ++
    ", shape: " ++ Json.quoted s.shape ++ " \x7d"

end Step

end MeetingLedger.Migration
