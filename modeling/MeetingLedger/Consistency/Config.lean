import MeetingLedger.Container.SortedMap
import MeetingLedger.Json.Basic

/-!
# Options of a check

The options say which part of a dataset is at hand, which migration indices are accepted and how
instances are repaired beforehand.
-/

namespace MeetingLedger.Consistency

inductive Mode where
  /-- A meeting of this organization; relations that leave the meeting are trusted. -/
  | internal
  /-- A meeting from elsewhere; no relation may leave the meeting. -/
  | external
  /-- The whole dataset. -/
  | all
deriving DecidableEq, Inhabited

namespace Mode

def name : Mode → String
  | internal => "internal"
  | external => "external"
  | all => "all"

def ofName? (s : String) : Option Mode := [internal, external, all].find? (·.name == s)

def isMeeting : Mode → Bool
  | all => false
  | _ => true

end Mode

/-- Which migration indices of a snapshot are accepted. -/
inductive IndexPolicy where
  /-- The index of the backend only. -/
  | strict
  /-- No index above the one of the backend. -/
  | permissive
deriving DecidableEq, Inhabited

namespace IndexPolicy

def name : IndexPolicy → String
  | strict => "strict"
  | permissive => "permissive"

def ofName? (s : String) : Option IndexPolicy := [strict, permissive].find? (·.name == s)

end IndexPolicy

structure Config where
  mode : Mode := .internal
  indexPolicy : IndexPolicy := .strict
  /-- Whether instances are repaired before they are checked. -/
  repair : Bool := false
  /-- The fields that a repair removes, by the name of the collection. -/
  fieldsToRemove : SortedMap String (List String) := ∅

namespace Config

/-- A word that an enumeration spells in JSON: a text, or an object that holds nothing but `null`
under it. -/
def word? : Json → Option String
  | .string s => some s
  | .object [(s, .null)] => some s
  | _ => none

def strings? (v : Json) : Option (List String) := do (← v.array?).mapM Json.string?

def fieldLists? (v : Json) : Option (SortedMap String (List String)) := do
  let lists ← (← v.members?).mapM fun (name, v) => (strings? v).map (name, ·)
  some (SortedMap.ofList lists)

/-- The options with one of them read from a member of an object; unknown members are skipped.
The first argument reads the words of enumerations. -/
def takeMember? (word? : Json → Option String) (c : Config) (member : String × Json) :
    Option Config :=
  match member.1 with
  | "mode" => do some { c with mode := ← Mode.ofName? (← word? member.2) }
  | "migration_mode" => do some { c with indexPolicy := ← IndexPolicy.ofName? (← word? member.2) }
  | "repair" => do some { c with repair := ← member.2.bool? }
  | "fields_to_remove" => do some { c with fieldsToRemove := ← fieldLists? member.2 }
  | _ => some c

/-- The options that an object denotes, defaults for the members that it lacks. -/
def ofMembers? (word? : Json → Option String) (v : Json) : Option Config := do
  (← v.members?).foldlM (takeMember? word?) {}

def ofJson? (v : Json) : Option Config := ofMembers? word? v

end Config

end MeetingLedger.Consistency
