import MeetingLedger.CommandLine.Arguments
import MeetingLedger.CommandLine.Format
import MeetingLedger.Consistency.Config
import MeetingLedger.Text.Character

/-! # What a command line asks for -/

namespace MeetingLedger.CommandLine

open Consistency (Mode)

inductive Shell where
  | bash
  | elvish
  | fish
  | powershell
  | zsh
deriving DecidableEq

namespace Shell

def name : Shell → String
  | bash => "bash"
  | elvish => "elvish"
  | fish => "fish"
  | powershell => "powershell"
  | zsh => "zsh"

def ofName? (s : String) : Option Shell :=
  [bash, elvish, fish, powershell, zsh].find? (·.name == s)

end Shell

structure CheckRequest where
  files : List String
  /-- Whether the snapshots are meetings from elsewhere. -/
  isImport : Bool
  mode? : Option Mode
  /-- Whether older migration indices are accepted. -/
  isPermissive : Bool
  repairs : Bool

structure ExportRequest where
  log : String
  /-- The file of the snapshot, which is printed otherwise. -/
  output? : Option String
  mode : Mode

/-- A command with its arguments. Logs are named by their directories. -/
inductive Command where
  | check (r : CheckRequest)
  | migrate (log : String) (target? : Option UInt64)
  | finalize (log : String)
  | exportSnapshot (r : ExportRequest)
  | models (collection? : Option String)
  | completions (shell : Shell)

structure Invocation where
  /-- Whether the times that phases take are reported. -/
  timing : Bool
  json : Bool
  format? : Option Format
  /-- The file of the settings. -/
  settings? : Option String
  command : Command

/-- A migration index: digits, in front of which a plus sign may stand. -/
def parseTarget? (s : String) : Option UInt64 :=
  let digits := match s.toList with
    | '+' :: cs => cs
    | cs => cs
  if !digits.isEmpty && digits.all isAsciiDigit then
    let n := Nat.ofDigitChars 10 digits 0
    if n < UInt64.size then some (UInt64.ofNat n) else none
  else none

def isPath (s : String) : Bool := !s.isEmpty

def commonSwitches : List Switch := [
  { long := "verbose", letter? := some 'v' },
  { long := "timing" },
  { long := "json" },
  { long := "format", role := .setting fun s => (Format.ofName? s).isSome },
  { long := "config", role := .setting isPath },
  { long := "help", letter? := some 'h', role := .help }]

def modeSwitch : Switch :=
  { long := "mode", role := .setting fun s => (Mode.ofName? s).isSome }

def logSwitch : Switch := { long := "log", role := .setting isPath }

def grammars : List (String × Grammar) := [
  ("check", {
    switches := commonSwitches ++
      [{ long := "import" }, modeSwitch, { long := "permissive" }, { long := "repair" }]
    operandLimit := none
    acceptsOperand := isPath }),
  ("migrate", {
    switches := commonSwitches ++
      [logSwitch, { long := "target", role := .setting fun s => (parseTarget? s).isSome }] }),
  ("finalize", { switches := commonSwitches ++ [logSwitch] }),
  ("export", {
    switches := commonSwitches ++
      [logSwitch, { long := "output", letter? := some 'o', role := .setting isPath },
        modeSwitch] }),
  ("models", { switches := commonSwitches, operandLimit := some 1 }),
  ("completions", {
    switches := commonSwitches
    operandLimit := some 1
    acceptsOperand := fun s => (Shell.ofName? s).isSome })]

def commandNames : List String := grammars.map (·.1)

def outerGrammar : Grammar where
  switches := commonSwitches ++ [{ long := "version", letter? := some 'V', role := .version }]
  commands := commandNames ++ ["help"]

/-- The command of a name, if what it needs was given. -/
def Command.ofGiven? (name : String) (g : Given) : Option Command :=
  let mode? := (g.value? "mode").bind Mode.ofName?
  match name with
  | "check" =>
    if g.operands.isEmpty || (g.has "import" && g.has "mode") then none
    else some (.check {
      files := g.operands, isImport := g.has "import", mode?,
      isPermissive := g.has "permissive", repairs := g.has "repair" })
  | "migrate" => do some (.migrate (← g.value? "log") ((g.value? "target").bind parseTarget?))
  | "finalize" => do some (.finalize (← g.value? "log"))
  | "export" => do
    let log ← g.value? "log"
    some (.exportSnapshot { log, output? := g.value? "output", mode := mode?.getD .all })
  | "models" => some (.models g.operands.head?)
  | "completions" => do some (.completions (← Shell.ofName? (← g.operands.head?)))
  | _ => none

namespace Invocation

/-- An invocation of a command by what stands in front of its name and behind it, where what
stands behind it prevails. -/
def ofGiven (outer inner : Given) (command : Command) : Invocation where
  timing := outer.has "timing" || inner.has "timing"
  json := outer.has "json" || inner.has "json"
  format? := ((inner.value? "format").or (outer.value? "format")).bind Format.ofName?
  settings? := (inner.value? "config").or (outer.value? "config")
  command

def helpFor : List String → Refusal
  | [] => .help
  | [name] => if outerGrammar.commands.contains name then .help else .usage
  | _ => .usage

def ofArguments (args : List String) : Except Refusal Invocation := do
  let (outer, rest) ← outerGrammar.read args
  match rest with
  | [] => .error .usage
  | name :: rest =>
    if name = "help" then .error (helpFor rest)
    else
      match grammars.lookup name with
      | none => .error .usage
      | some grammar =>
        let (inner, _) ← grammar.read rest
        match Command.ofGiven? name inner with
        | none => .error .usage
        | some command => .ok (ofGiven outer inner command)

end Invocation

end MeetingLedger.CommandLine
