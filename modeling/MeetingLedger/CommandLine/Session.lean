import MeetingLedger.CommandLine.Check
import MeetingLedger.CommandLine.Help
import MeetingLedger.CommandLine.Migrate
import MeetingLedger.CommandLine.Models
import MeetingLedger.Schema.Declaration
import MeetingLedger.Settings

/-! # A command line from its arguments to its exit code -/

namespace MeetingLedger.CommandLine

open Schema Storage Timing

/-- The circumstances of a command line. -/
structure Session where
  arguments : List String
  /-- The format that the environment names. -/
  formatSetting? : Option String
  /-- What the environment says about reports of times. -/
  timingSetting? : Option String
  /-- Whether people read the output. -/
  isTerminal : Bool
  /-- The directory for the settings of the user. -/
  userDirectory : String
  /-- The time that is stamped on appended positions. -/
  now : Int64
  disk : Disk

structure Outcome where
  exitCode : UInt8
  output : String
  errors : String
  disk : Disk

def Refusal.outcome (r : Refusal) (d : Disk) : Outcome :=
  match r with
  | .usage => ⟨2, "", usageText, d⟩
  | .help => ⟨0, usageText, "", d⟩
  | .version => ⟨0, versionText, "", d⟩

def loadRegistry (d : Disk) (models? : Option String) : Except Failure Registry :=
  match models? with
  | none => .ok .standard
  | some path =>
    match d.read path with
    | .error p => .error (.chain ["Failed to read " ++ path, p.message] none none)
    | .ok text => (Registry.ofText text).mapError fun e =>
      .chain ["Failed to load models from " ++ path, e.message] none (some e.code)

/-- The phase in which a command is measured. -/
def Command.phase? : Command → Option String
  | check _ => some "cmd.check"
  | migrate .. => some "cmd.migrate"
  | finalize _ => some "cmd.finalize"
  | exportSnapshot _ => some "cmd.export"
  | models _ | completions _ => none

/-- The directory of the log that a command works on, and the lock that it takes. -/
def Command.log? : Command → Option (String × LockMode)
  | migrate log _ | finalize log => some (log, .write)
  | exportSnapshot r => some (r.log, .read)
  | check _ | models _ | completions _ => none

def Command.paths (c : Command) : List String :=
  let logPaths := c.log?.toList.flatMap fun (log, _) =>
    let store : LogDirectory := ⟨.empty, log⟩
    [store.eventsPath, store.lockPath]
  logPaths ++ match c with
    | check r => r.files
    | exportSnapshot r => r.output?.toList
    | _ => []

def Command.run (c : Command) (settings : Settings) (registry : Registry) (now : Int64)
    (f : Format) (d : Disk) : Completion :=
  match c with
  | check r => r.run registry settings.checker f d
  | migrate log target? => migrateLog registry now log target? f d
  | finalize log => finalizeLog registry now log f d
  | exportSnapshot r => r.run registry settings.checker f d
  | models collection? => .ofResult f d (printModels registry collection?)
  | completions shell => { result := .ok shell.script, disk := d }

namespace Session

variable {m : Type → Type} [Monad m] (clock : m Nat) (s : Session)

def perform (i : Invocation) (f : Format) : StateT Sampling m Completion := do
  match Settings.load s.disk i.settings? s.userDirectory with
  | .error e => pure (.ofResult f s.disk (.error (.chain [e.message] e.cause? none)))
  | .ok settings =>
    match ← timed clock "registry.load" fun _ => loadRegistry s.disk settings.models? with
    | .error e => pure (.ofResult f s.disk (.error e))
    | .ok registry =>
      let act := fun (_ : Unit) => i.command.run settings registry s.now f s.disk
      match i.command.phase? with
      | none => pure (act ())
      | some phase => timed clock phase act

/-- What is seen of a command, after a report of the times if one is wanted and the program did not
stop before. -/
def conclude (f : Format) (times? : Option Report) (c : Completion) : Outcome :=
  let times := (if c.isCrash then none else times?).map fun r =>
    if f = .json then r.toJson.pretty 0 ++ "\n" else r.table
  let failure := match c.result with
    | .ok _ => ""
    | .error e => e.render f
  ⟨c.exitCode, c.result.toOption.getD "", times.getD "" ++ failure, c.disk⟩

def runInvocation (i : Invocation) : m Outcome := do
  let f := Format.choose i.format? i.json s.formatSetting? s.isTerminal
  let wantsTimes := i.timing || s.timingSetting?.any isTruthy
  let act : StateT Sampling m Completion := match i.command with
    | .completions _ => pure (i.command.run {} .standard s.now f s.disk)
    | _ => s.perform clock i f
  let (c, sampling) ← act.run (Sampling.off.setEnabled wantsTimes)
  pure (conclude f (if wantsTimes then some sampling.takeReport.1 else none) c)

/-- Carries a command line out, with the times that phases take by a clock of microseconds. -/
def run : m Outcome :=
  match Invocation.ofArguments s.arguments with
  | .error r => pure (r.outcome s.disk)
  | .ok i => s.runInvocation clock i

end Session

end MeetingLedger.CommandLine
