import MeetingLedger.CommandLine.Completion
import MeetingLedger.CommandLine.Invocation
import MeetingLedger.Consistency.Checker
import MeetingLedger.Json.Reader
import MeetingLedger.Schema.Standard
import MeetingLedger.Storage.Disk

/-! # Checks of snapshots in files -/

namespace MeetingLedger.CommandLine

open Schema Storage Consistency

structure FileReport where
  file : String
  errors : List String

namespace FileReport

def isValid (r : FileReport) : Bool := r.errors.isEmpty

def toJson (r : FileReport) : Json :=
  .object [("file", .string r.file), ("ok", .boolean r.isValid), ("errors", .ofStrings r.errors)]

def errorLines (r : FileReport) : List String := r.errors.map ("\t" ++ ·)

def textLines (r : FileReport) : List String :=
  tabbed [r.file, if r.isValid then "ok" else "invalid"] :: r.errorLines

def prettyLines (r : FileReport) : List String :=
  if r.isValid then [s!"✓ {r.file}: Datastore is valid"]
  else s!"✗ {r.file}: Datastore is corrupt ({r.errors.length} errors)" :: r.errorLines

end FileReport

/-- The options of a check: those asked for prevail over the configured ones. -/
def CheckRequest.config (r : CheckRequest) (configured : Config) : Config :=
  { configured with
    mode := if r.isImport then .external else r.mode?.getD configured.mode
    indexPolicy := if r.isPermissive then .permissive else configured.indexPolicy
    repair := configured.repair || r.repairs }

def checkFile (c : Checker) (d : Disk) (file : String) : FileReport :=
  match d.read file with
  | .error p => ⟨file, ["Cannot read file: " ++ p.message]⟩
  | .ok text =>
    match Json.parse? text with
    | none => ⟨file, ["Invalid JSON: the text is malformed"]⟩
    | some document =>
      match c.checkDocument document with
      | .error found => ⟨file, found.map Finding.line⟩
      | .ok _ => ⟨file, []⟩

def printReports (reports : List FileReport) : Printout where
  pretty := reports.flatMap FileReport.prettyLines
  text := reports.flatMap FileReport.textLines
  json := .array (reports.map FileReport.toJson)

def CheckRequest.run (r : CheckRequest) (registry : Registry) (configured : Config) (f : Format)
    (d : Disk) : Completion :=
  let checker : Checker := ⟨registry, r.config configured, latestMigrationIndex⟩
  let reports := r.files.map (checkFile checker d)
  ⟨.ok ((printReports reports).render f), d, reports.all FileReport.isValid⟩

end MeetingLedger.CommandLine
