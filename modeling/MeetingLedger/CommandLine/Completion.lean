import MeetingLedger.CommandLine.Format
import MeetingLedger.ErrorCode
import MeetingLedger.Storage.Disk

/-!
# The end of a command

How a command ends: with a text to print, or with a failure that an operator is told.
-/

namespace MeetingLedger.CommandLine

structure Failure where
  message : String
  code? : Option ErrorCode := none
  /-- Whether the program stopped instead of reporting the failure. -/
  isCrash : Bool := false

namespace Failure

/-- A failure with what the command was about, what went wrong and what is behind that. -/
def chain (parts : List String) (cause? : Option String) (code? : Option ErrorCode) : Failure :=
  { message := ": ".intercalate (parts ++ cause?.toList), code? }

def toJson (f : Failure) : Json :=
  let code := f.code?.map fun c => ("error_code", Json.string c.code)
  let hint := (f.code?.bind ErrorCode.hint?).map fun h => ("suggestion", Json.string h)
  .object [("error", .object (code.toList ++ [("message", .string f.message)] ++ hint.toList))]

def lines (f : Failure) : List String :=
  let label := match f.code? with
    | some c => s!"error[{c.code}]"
    | none => "error"
  (label ++ ": " ++ f.message) ::
    ((f.code?.bind ErrorCode.hint?).map ("  suggestion: " ++ ·)).toList

/-- The failure in a format; people and scripts read the same lines. -/
def render (f : Failure) (format : Format) : String :=
  if f.isCrash then unlines [f.message]
  else
    match format with
    | .json => f.toJson.pretty 0 ++ "\n"
    | _ => unlines f.lines

end Failure

/-- What a command prints or why it failed, and the disk after it. -/
structure Completion where
  result : Except Failure String
  disk : Storage.Disk
  /-- Whether all data that was checked is valid. -/
  isClean : Bool := true

namespace Completion

def ofResult (f : Format) (d : Storage.Disk) (r : Except Failure Printout) : Completion where
  result := r.map (·.render f)
  disk := d

def isCrash (c : Completion) : Bool :=
  match c.result with
  | .ok _ => false
  | .error e => e.isCrash

def exitCode (c : Completion) : UInt8 :=
  match c.result with
  | .ok _ => if c.isClean then 0 else 1
  | .error e => if e.isCrash then 101 else 1

end Completion

end MeetingLedger.CommandLine
