import MeetingLedger.Consistency.Config
import MeetingLedger.Storage.Disk
import MeetingLedger.Toml.Reader

/-!
# Settings of a project

Settings are read from a file that is named, else from the file of the project, else from the file
of the user; without any of them the defaults hold.
-/

namespace MeetingLedger

open Storage

/-- The settings of a project. -/
structure Settings where
  checker : Consistency.Config := {}
  /-- How long a command waits for a lock, in milliseconds. -/
  lockTimeout : UInt64 := 5000
  /-- The path of the models that stand in for the standard ones. -/
  models? : Option String := none

inductive SettingsError where
  | missing (path : String)
  | unreadable (path : String) (p : AccessProblem)
  | malformed (path : String)

namespace SettingsError

def message : SettingsError → String
  | missing path => s!"Config file {path} does not exist"
  | unreadable path _ => "Failed to read " ++ path
  | malformed path => "Failed to parse " ++ path

def cause? : SettingsError → Option String
  | missing _ => none
  | unreadable _ p => some p.message
  | malformed _ => some "the text is malformed or holds a value of a wrong type"

end SettingsError

namespace Settings

def projectFile : String := ".plenum/config.toml"

def userFile : String := "plenum/config.toml"

/-- A word that an enumeration spells: a text, or a table that holds nothing but an empty table
under it. -/
def word? : Json → Option String
  | .string s => some s
  | .object [(s, .object [])] => some s
  | _ => none

def below? {α : Type} (name : String) (absent : α) (read? : Json → Option α) (v : Json) :
    Option α := do
  let members ← v.members?
  match members.lookup name with
  | none => some absent
  | some v => read? v

/-- The settings that a document denotes, defaults for those that it lacks; unknown names are
skipped. -/
def ofToml? (document : Toml) : Option Settings := do
  let v := document.toJson
  let standard : Settings := {}
  let checker ← below? "checker" {} (Consistency.Config.ofMembers? word?) v
  let lockTimeout ← below? "migration" standard.lockTimeout
    (below? "lock_timeout_ms" standard.lockTimeout Json.id?) v
  let models? ← below? "registry" none (below? "models" none fun v => v.string?.map some) v
  some { checker, lockTimeout, models? }

def relativeTo (directory : String) (s : Settings) : Settings :=
  { s with models? := s.models?.map (Disk.join directory) }

/-- The settings in a file, the defaults if it is not there. -/
def loadFile (d : Disk) (path : String) : Except SettingsError Settings :=
  if d.contains path then
    match d.read path with
    | .error p => .error (.unreadable path p)
    | .ok text =>
      match (Toml.parse? text).bind ofToml? with
      | none => .error (.malformed path)
      | some s => .ok (s.relativeTo (Disk.parent path))
  else .ok {}

def candidates (named? : Option String) (userDirectory : String) : List String :=
  match named? with
  | some path => [path]
  | none => [projectFile, Disk.join userDirectory userFile]

/-- The settings that hold in the working directory. A file that is named has to be there. -/
def load (d : Disk) (named? : Option String) (userDirectory : String) :
    Except SettingsError Settings :=
  match named? with
  | some path => if d.contains path then loadFile d path else .error (.missing path)
  | none =>
    loadFile d (if d.contains projectFile then projectFile else Disk.join userDirectory userFile)

end Settings

end MeetingLedger
