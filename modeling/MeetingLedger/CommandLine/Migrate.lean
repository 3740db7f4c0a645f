import MeetingLedger.CommandLine.Completion
import MeetingLedger.CommandLine.Invocation
import MeetingLedger.Migration.Migrator
import MeetingLedger.Storage.LogDirectory

/-! # Migrations and exports of logs in directories -/

namespace MeetingLedger.CommandLine

open Schema Storage Consistency Migration

def printMigration (r : Migration.Report) : Printout where
  text := [tabbed [toString r.source.toNat, toString r.target.toNat, ",".intercalate r.applied,
    if r.verified then "verified" else "unverified"]]
  pretty :=
    if r.isNoop then [s!"Event log is already at migration index {r.target.toNat}"]
    else heading "Migration" ++ [
      entry "From" (toString r.source.toNat), entry "To" (toString r.target.toNat),
      entry "Applied" (", ".intercalate r.applied), entry "Positions" (toString r.positions),
      entry "Verified" (if r.verified then "yes" else "no")]
  json := .object [("from", .ofUInt64 r.source), ("to", .ofUInt64 r.target),
    ("applied", .ofStrings r.applied), ("positions", .ofNat r.positions),
    ("verified", .boolean r.verified)]

def migrationFailure (doing : String) (e : MigrationError) : Failure :=
  if e.isCrash then { message := e.cause?.getD e.message, isCrash := true }
  else .chain [doing, e.message] e.cause? (some e.code)

def withLog (d : Disk) (log : String) (next : LogDirectory → Completion) : Completion :=
  match LogDirectory.openExisting d log with
  | .error e =>
    { result := .error (.chain ["Failed to open event log in " ++ log, e.message] e.cause?
        (some e.code))
      disk := d }
  | .ok store => next store

def standardMigrator (registry : Registry) : Migrator := ⟨registry, .standard⟩

def completeMigration (doing : String) (f : Format) (m : Migrated LogDirectory) : Completion :=
  let r := m.result.mapError (migrationFailure doing)
  .ofResult f m.store.disk (r.map printMigration)

/-- Migrates the log in a directory, to the latest migration index unless another is asked for. -/
def migrateLog (registry : Registry) (now : Int64) (log : String) (target? : Option UInt64)
    (f : Format) (d : Disk) : Completion :=
  withLog d log fun store =>
    let m := standardMigrator registry
    completeMigration s!"Migration of {log} failed" f
      (m.migrateTo now (target?.getD m.latest) store)

def finalizeLog (registry : Registry) (now : Int64) (log : String) (f : Format) (d : Disk) :
    Completion :=
  withLog d log fun store =>
    completeMigration s!"Finalizing {log} failed" f
      ((standardMigrator registry).finalize now store)

def printExport (output : String) (s : Snapshot) : Printout where
  text := [tabbed [output, toString s.size]]
  pretty := [s!"✓ Exported {s.size} instances at migration index " ++
    s!"{(s.migrationIndex.getD 0).toNat} to {output}"]
  json := .object [("output", .string output),
    ("migration_index", .ofOption .ofUInt64 s.migrationIndex), ("instances", .ofNat s.size)]

def deliver (s : Snapshot) (output? : Option String) (f : Format) (d : Disk) : Completion :=
  let document := s.toJson.pretty 0 ++ "\n"
  match output? with
  | none => { result := .ok document, disk := d }
  | some path =>
    match d.write path document with
    | .error p => .ofResult f d (.error (.chain ["Failed to write " ++ path, p.message] none none))
    | .ok d => .ofResult f d (.ok (printExport path s))

/-- Exports the log in a directory as a checked snapshot. -/
def ExportRequest.run (r : ExportRequest) (registry : Registry) (configured : Config) (f : Format)
    (d : Disk) : Completion :=
  withLog d r.log fun store =>
    let config := { configured with mode := r.mode }
    match (standardMigrator registry).exportSnapshot config store with
    | (.error e, store) =>
      .ofResult f store.disk (.error (migrationFailure s!"Export of {r.log} failed" e))
    | (.ok s, store) => deliver s r.output? f store.disk

end MeetingLedger.CommandLine
