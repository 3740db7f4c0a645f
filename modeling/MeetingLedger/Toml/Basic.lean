import MeetingLedger.Arithmetic.Numeral
import MeetingLedger.Json.Basic

/-! # TOML values: what a document of settings denotes -/

namespace MeetingLedger

inductive Toml where
  | string (s : String)
  | integer (n : Int64)
  | float (x : Real64)
  | boolean (b : Bool)
  /-- A date, a time of day or both. -/
  | moment (text : String)
  | array (items : List Toml)
  | table (entries : List (String × Toml))
deriving Inhabited

namespace Toml

mutual
/-- The JSON value with the same content. Numbers that JSON does not know become `null`, and a
moment becomes an object that holds its text. -/
def toJson : Toml → Json
  | string s => .string s
  | integer n => .ofInt64 n
  | float (.finite x) => .number (.real x)
  | float _ => .null
  | boolean b => .boolean b
  | moment text => .object [("moment", .string text)]
  | array items => .array (itemsToJson items)
  | table entries => .object (Entries.ofList (entriesToJson entries))

def itemsToJson : List Toml → List Json
  | [] => []
  | v :: vs => toJson v :: itemsToJson vs

def entriesToJson : List (String × Toml) → List (String × Json)
  | [] => []
  | (k, v) :: es => (k, toJson v) :: entriesToJson es
end

end Toml

end MeetingLedger
