import MeetingLedger.Ledger.Event
import MeetingLedger.ErrorCode
import MeetingLedger.Storage.Disk

/-!
# Stores of event logs

A log is read as a whole and replaced as a whole.
-/

namespace MeetingLedger.Storage

/-- Why a store does not give or take a log. -/
inductive StoreError where
  | notFound (path : String)
  | access (path : String) (p : AccessProblem)
  | notJson (path : String)
  | malformed (p : LogProblem)
  | lock (path : String) (p : LockProblem)

namespace StoreError

def message : StoreError → String
  | notFound path => "event log not found at " ++ path
  | access path p => s!"failed to access event log at {path}: {p.message}"
  | notJson path => s!"event log at {path} is not valid JSON: no log can be read from it"
  | malformed p => "event log is malformed: " ++ p.message
  | lock path .held => s!"event log lock {path} is held elsewhere"
  | lock path (.access p) => s!"cannot open event log lock {path}: {p.message}"

def cause? : StoreError → Option String
  | access _ p | lock _ (.access p) => some p.message
  | _ => none

def code : StoreError → ErrorCode
  | notFound _ | notJson _ | malformed _ => .eventLogUnreadable
  | access _ _ | lock _ (.access _) => .eventLogWriteFailed
  | lock _ .held => .lockContention

end StoreError

/-- Access to an event log that is kept in some state. -/
class EventStore (σ : Type) where
  load : σ → Except StoreError EventLog
  /-- Replaces the whole log; a failure leaves the former one. -/
  replace : EventLog → σ → Except StoreError Unit × σ
  /-- Takes the lock of the store, if it has one, and gives it back. -/
  enter : LockMode → σ → Except StoreError Unit × σ := fun _ s => (.ok (), s)

/-- A log in memory and how often it was replaced. -/
structure MemoryStore where
  log : EventLog
  writes : Nat

namespace MemoryStore

def ofLog (log : EventLog) : MemoryStore := ⟨log, 0⟩

/-- Takes a well-formed log only. -/
def replace (log : EventLog) (s : MemoryStore) : Except StoreError Unit × MemoryStore :=
  match log.problem? with
  | some p => (.error (.malformed p), s)
  | none => (.ok (), ⟨log, s.writes + 1⟩)

instance : EventStore MemoryStore where
  load s := .ok s.log
  replace

end MemoryStore

end MeetingLedger.Storage
