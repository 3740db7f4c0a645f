import MeetingLedger.Json.Writer
import MeetingLedger.Ledger.Codec
import MeetingLedger.Storage.Store

/-!
# Logs in directories

An event log in a directory: one file holds the log as a JSON text, another one its lock.
-/

namespace MeetingLedger.Storage

/-- A directory on a disk that holds an event log. -/
structure LogDirectory where
  disk : Disk
  path : String

namespace LogDirectory

def eventsPath (s : LogDirectory) : String := Disk.join s.path "events.json"

def lockPath (s : LogDirectory) : String := Disk.join s.path "events.lock"

def openExisting (disk : Disk) (path : String) : Except StoreError LogDirectory :=
  let s : LogDirectory := ⟨disk, path⟩
  if disk.isFile s.eventsPath then .ok s else .error (.notFound s.eventsPath)

def load (s : LogDirectory) : Except StoreError EventLog :=
  match s.disk.read s.eventsPath with
  | .error .notFound => .error (.notFound s.eventsPath)
  | .error p => .error (.access s.eventsPath p)
  | .ok text =>
    match EventLog.ofText? text with
    | none => .error (.notJson s.eventsPath)
    | some log =>
      match log.problem? with
      | some p => .error (.malformed p)
      | none => .ok log

def replace (log : EventLog) (s : LogDirectory) : Except StoreError Unit × LogDirectory :=
  match log.problem? with
  | some p => (.error (.malformed p), s)
  | none =>
    match s.disk.write s.eventsPath (log.toJson.pretty 0) with
    | .error p => (.error (.access s.eventsPath p), s)
    | .ok disk => (.ok (), { s with disk })

/-- Makes a directory that holds a well-formed log. -/
def create (disk : Disk) (path : String) (log : EventLog) : Except StoreError LogDirectory :=
  match disk.makeDirectories path with
  | .error p => .error (.access path p)
  | .ok disk =>
    match replace log ⟨disk, path⟩ with
    | (.ok (), s) => .ok s
    | (.error e, _) => .error e

/-- Takes the lock and gives it back; its file stays. -/
def enter (mode : LockMode) (s : LogDirectory) : Except StoreError Unit × LogDirectory :=
  match s.disk.lock s.lockPath mode with
  | (.ok g, disk) => (.ok (), { s with disk := disk.unlock g })
  | (.error p, disk) => (.error (.lock s.lockPath p), { s with disk })

instance : EventStore LogDirectory where
  load
  replace
  enter

end LogDirectory

end MeetingLedger.Storage
