import MeetingLedger.CommandLine.Session
import Std.Time.DateTime.Timestamp

/-!
# The program

The program: it copies the files that a command line names onto a disk in memory, carries the
command line out there and copies what it changed back.
-/

namespace MeetingLedger.Main

open CommandLine Storage

/-- What is found under a path, as far as it can be read; directories are what can be opened but
not be read as a file. -/
def entryAt (path : String) : IO (Option Entry) := do
  try pure (some (.file (← IO.FS.readFile path)))
  catch
    | .inappropriateType none _ _ => pure (some .directory)
    | _ => pure none

def fetch (d : Disk) (path : String) : IO Disk := do
  let directory := Disk.parent path
  let d ← match ← entryAt (Disk.join directory ".") with
    | some .directory => pure ((d.makeDirectories directory).toOption.getD d)
    | _ => pure d
  match ← entryAt path with
  | some .directory => pure ((d.makeDirectories path).toOption.getD d)
  | some (.file content) => pure ((d.write path content).toOption.getD d)
  | none => pure d

def fetchAll (d : Disk) (paths : List String) : IO Disk := paths.foldlM fetch d

def sameEntry : Entry → Entry → Bool
  | .file a, .file b => a == b
  | .directory, .directory => true
  | _, _ => false

def store (before after : Disk) : IO Unit := do
  for (place, entry) in after.entries.entries do
    if (before.entry? place).any (sameEntry entry) then pure ()
    else
      let path := "/" ++ "/".intercalate place
      match entry with
      | .directory => IO.FS.createDirAll path
      | .file content => IO.FS.writeFile path content

/-- Tries to take a lock until a time is over, in milliseconds. -/
def waitFor (h : IO.FS.Handle) (mode : LockMode) : Nat → IO Bool
  | 0 => h.tryLock (mode = .write)
  | left + 1 => do
    if ← h.tryLock (mode = .write) then pure true
    else
      IO.sleep 1
      waitFor h mode left

/-- Carries a session out while its log is locked. If others hold the lock, the disk shows it. -/
def runLocked (s : Session) (i : Invocation) (settings : Settings) : IO Outcome := do
  let clock : IO Nat := do pure ((← IO.monoNanosNow) / 1000)
  let go := fun (s : Session) => do
    let s := { s with disk := ← fetchAll s.disk i.command.paths }
    let o ← s.runInvocation clock i
    store s.disk o.disk
    pure o
  match i.command.log? with
  | none => go s
  | some (log, mode) =>
    match ← entryAt (LogDirectory.eventsPath ⟨s.disk, log⟩) with
    | some (.file _) =>
      let lockPath := LogDirectory.lockPath ⟨s.disk, log⟩
      try
        let h ← IO.FS.Handle.mk lockPath .append
        if ← waitFor h mode settings.lockTimeout.toNat then
          let o ← go s
          h.unlock
          pure o
        else
          let d ← fetch s.disk lockPath
          go { s with disk := (d.lock lockPath .write).2 }
      catch _ => go s
    | _ => go s

def runSession (s : Session) : IO Outcome := do
  match Invocation.ofArguments s.arguments with
  | .error r => pure (r.outcome s.disk)
  | .ok i =>
    let d ← fetchAll s.disk (Settings.candidates i.settings? s.userDirectory)
    let settings := (Settings.load d i.settings? s.userDirectory).toOption.getD {}
    let d ← fetchAll d settings.models?.toList
    runLocked { s with disk := d } i settings

def userDirectory : IO String := do
  match ← IO.getEnv "XDG_CONFIG_HOME" with
  | some directory => pure directory
  | none => pure (Disk.join ((← IO.getEnv "HOME").getD "") ".config")

end MeetingLedger.Main

open MeetingLedger in
def main (arguments : List String) : IO UInt32 := do
  let disk := Storage.Disk.within (toString (← IO.currentDir))
  let o ← Main.runSession {
    arguments
    formatSetting? := ← IO.getEnv "PLENUM_FORMAT"
    timingSetting? := ← IO.getEnv "PLENUM_TIMING"
    isTerminal := ← (← IO.getStdout).isTty
    userDirectory := ← Main.userDirectory
    now := Int64.ofInt (← Std.Time.Timestamp.now).toSecondsSinceUnixEpoch.val
    disk }
  (← IO.getStdout).putStr o.output
  (← IO.getStderr).putStr o.errors
  pure o.exitCode.toUInt32
