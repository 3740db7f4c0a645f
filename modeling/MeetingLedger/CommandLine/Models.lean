import MeetingLedger.CommandLine.Completion
import MeetingLedger.Schema.Registry

/-! # Listings of collections and of the fields of a collection -/

namespace MeetingLedger.CommandLine

open Schema

def prettyCollection (r : Registry) (c : Collection) : String :=
  s!"{Timing.padEnd 24 c.name} {Timing.padStart 3 (toString c.fields.length)} fields  " ++
    (if r.isMeetingScoped c.name then "meeting" else "organization")

def textCollection (r : Registry) (c : Collection) : String :=
  tabbed [c.name, toString c.fields.length, toString (r.isMeetingScoped c.name)]

def jsonCollection (r : Registry) (c : Collection) : Json :=
  .object [("name", .string c.name), ("fields", .ofNat c.fields.length),
    ("meeting_scoped", .boolean (r.isMeetingScoped c.name))]

def printCollections (r : Registry) : Printout where
  pretty := heading "Collections" ++ r.collections.values.map (prettyCollection r)
  text := r.collections.values.map (textCollection r)
  json := .array (r.collections.values.map (jsonCollection r))

def targetTexts (f : Field) : List String := f.type.targets.map Target.text

def prettyField (f : Field) : String :=
  let marks := (if f.required then ["required"] else []) ++
    (if f.calculated then ["calculated"] else [])
  Timing.padEnd 40 f.name ++ " " ++ Timing.padEnd 22 f.type.name ++
    (if (targetTexts f).isEmpty then "" else " -> " ++ " | ".intercalate (targetTexts f)) ++
    (if marks.isEmpty then "" else " [" ++ ", ".intercalate marks ++ "]")

def textField (f : Field) : String :=
  tabbed [f.name, f.type.name, toString f.required, ",".intercalate (targetTexts f)]

def jsonField (f : Field) : Json :=
  .object ([("name", .string f.name), ("type", .string f.type.name),
    ("required", .boolean f.required), ("calculated", .boolean f.calculated)] ++
    (if (targetTexts f).isEmpty then [] else [("to", .ofStrings (targetTexts f))]))

def printFields (c : Collection) : Printout where
  pretty := heading c.name ++ c.fields.map prettyField
  text := c.fields.map textField
  json := .array (c.fields.map jsonField)

def printModels (r : Registry) (collection? : Option String) : Except Failure Printout :=
  match collection? with
  | none => .ok (printCollections r)
  | some name =>
    match r.collection name with
    | .error e => .error (.chain [e.message] none (some e.code))
    | .ok c => .ok (printFields c)

end MeetingLedger.CommandLine
