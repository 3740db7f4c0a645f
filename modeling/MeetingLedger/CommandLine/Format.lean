import MeetingLedger.Json.Writer
import MeetingLedger.Text.Character
import MeetingLedger.Timing

/-! # The formats in which a command prints what it found, and why it failed -/

namespace MeetingLedger.CommandLine

inductive Format where
  /-- Headings and marks for people. -/
  | pretty
  /-- Lines of parts between tabs. -/
  | text
  | json
deriving DecidableEq

namespace Format

def name : Format → String
  | pretty => "pretty"
  | text => "text"
  | json => "json"

def ofName? (s : String) : Option Format := [pretty, text, json].find? (·.name == s)

/-- The format that a setting of the environment names, in any case and with or without blanks
around it. -/
def ofSetting? (s : String) : Option Format :=
  ofName? (String.ofList ((trimBlanks s.toList).map Char.toLower))

/-- The format that holds: the one asked for, JSON if that is asked for, the one that the
environment names, else the one that suits the place of the output. -/
def choose (asked? : Option Format) (wantsJson : Bool) (setting? : Option String)
    (isTerminal : Bool) : Format :=
  match asked? with
  | some f => f
  | none =>
    if wantsJson then json
    else ((setting?.bind ofSetting?).getD (if isTerminal then pretty else text))

end Format

/-- What a command found, in all formats. -/
structure Printout where
  pretty : List String
  text : List String
  json : Json

def unlines (lines : List String) : String := String.join (lines.map (· ++ "\n"))

def Printout.render (p : Printout) : Format → String
  | .pretty => unlines p.pretty
  | .text => unlines p.text
  | .json => p.json.pretty 0 ++ "\n"

def heading (title : String) : List String :=
  [title, String.ofList (List.replicate 72 '-')]

def entry (name value : String) : String := Timing.padEnd 16 (name ++ ":") ++ " " ++ value

def tabbed (parts : List String) : String := "\t".intercalate parts

end MeetingLedger.CommandLine
