import MeetingLedger.Arithmetic.Numeral
import MeetingLedger.Json.Writer

/-! # YAML values: what a document denotes once its scalars are resolved -/

namespace MeetingLedger

/-- A number of a YAML document: an integer in range or any floating point number. -/
inductive YamlNumber where
  | whole (n : Whole)
  | real (x : Real64)
deriving DecidableEq

/-- A YAML value. The entries of a mapping keep the order of the document. -/
inductive Yaml where
  | null
  | boolean (b : Bool)
  | number (n : YamlNumber)
  | string (s : String)
  | sequence (items : List Yaml)
  | mapping (entries : List (Yaml × Yaml))
  | tagged (tag : String) (value : Yaml)
deriving Inhabited

namespace YamlNumber

/-- Integers and floating point numbers with one value are different numbers. -/
def same : YamlNumber → YamlNumber → Bool
  | whole a, whole b => a.value == b.value
  | real (.finite x), real (.finite y) => x.rank == y.rank
  | real x, real y => x == y
  | _, _ => false

def toReal : YamlNumber → Real64
  | whole n => (Number.whole n).toReal
  | real x => x

def text : YamlNumber → String
  | whole n => toString n.value
  | real .nan => ".nan"
  | real (.infinity negative) => if negative then "-.inf" else ".inf"
  | real (.finite x) => Json.realLayout.write x

end YamlNumber

namespace Yaml

mutual
def same : Yaml → Yaml → Bool
  | null, null => true
  | boolean a, boolean b => a == b
  | number a, number b => a.same b
  | string a, string b => a == b
  | sequence xs, sequence ys => sameItems xs ys
  | mapping xs, mapping ys => sameEntries xs ys
  | tagged s x, tagged t y => s == t && same x y
  | _, _ => false

def sameItems : List Yaml → List Yaml → Bool
  | [], [] => true
  | x :: xs, y :: ys => same x y && sameItems xs ys
  | _, _ => false

def sameEntries : List (Yaml × Yaml) → List (Yaml × Yaml) → Bool
  | [], [] => true
  | (k, x) :: xs, (l, y) :: ys => same k l && same x y && sameEntries xs ys
  | _, _ => false
end

mutual
def inspect : Yaml → String
  | null => "Null"
  | boolean b => s!"Bool({b})"
  | number n => s!"Number({n.text})"
  | string s => s!"String({Json.quoted s})"
  | sequence items => "Sequence [" ++ ", ".intercalate (inspectItems items) ++ "]"
  | mapping entries => "Mapping \x7b" ++ ", ".intercalate (inspectEntries entries) ++ "\x7d"
  | tagged tag v => s!"TaggedValue \x7b tag: {tag}, value: {inspect v} \x7d"

def inspectItems : List Yaml → List String
  | [] => []
  | v :: vs => inspect v :: inspectItems vs

def inspectEntries : List (Yaml × Yaml) → List String
  | [] => []
  | (k, v) :: es => (inspect k ++ ": " ++ inspect v) :: inspectEntries es
end

def untagged : Yaml → Yaml
  | tagged _ v => untagged v
  | v => v

def string? (v : Yaml) : Option String :=
  match v.untagged with
  | string s => some s
  | _ => none

def bool? (v : Yaml) : Option Bool :=
  match v.untagged with
  | boolean b => some b
  | _ => none

def natural? (v : Yaml) : Option Nat :=
  match v.untagged with
  | number (.whole n) => n.toUInt64?.map UInt64.toNat
  | _ => none

def lookup? (entries : List (Yaml × Yaml)) (key : String) : Option Yaml :=
  (entries.find? fun e => e.1.same (string key)).map (·.2)

/-- The name of an object member for a key: texts, numbers and truth values have one. -/
def memberName? : Yaml → Option String
  | string s => some s
  | boolean b => some (toString b)
  | number (.whole n) => some (toString n.value)
  | number (.real (.finite x)) => some (Json.realLayout.write x)
  | _ => none

mutual
/-- The JSON value, `none` if a mapping has a key that names no member. Infinite numbers and
those that are none become `null`. -/
def toJson? : Yaml → Option Json
  | null => some .null
  | boolean b => some (.boolean b)
  | number (.whole n) => some (.number (.whole n))
  | number (.real (.finite x)) => some (.number (.real x))
  | number (.real _) => some .null
  | string s => some (.string s)
  | sequence items => (itemsToJson? items).map .array
  | mapping entries => (entriesToJson? entries).map fun ms => .object (Entries.ofList ms)
  | tagged tag v => (toJson? v).map fun v => .object [(tag, v)]

def itemsToJson? : List Yaml → Option (List Json)
  | [] => some []
  | v :: vs => do some ((← toJson? v) :: (← itemsToJson? vs))

def entriesToJson? : List (Yaml × Yaml) → Option (List (String × Json))
  | [] => some []
  | (k, v) :: es => do some ((← memberName? k, ← toJson? v) :: (← entriesToJson? es))
end

end Yaml

end MeetingLedger
