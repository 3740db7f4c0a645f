import MeetingLedger.Fqid
import MeetingLedger.Json.Writer

/-! # The fields of one model -/

namespace MeetingLedger

/-- The fields of a model by name, its id among them. -/
abbrev Instance := SortedMap String Json

namespace Instance

def idAt? (i : Instance) (field : String) : Option UInt64 := (i.get? field).bind Json.id?

def boolAt? (i : Instance) (field : String) : Option Bool := (i.get? field).bind Json.bool?

def idsAt (i : Instance) (field : String) : List UInt64 := Json.ids (i.get? field)

def sorted (i : Instance) : Instance := i.mapValues fun _ v => v.sorted

end Instance

end MeetingLedger
