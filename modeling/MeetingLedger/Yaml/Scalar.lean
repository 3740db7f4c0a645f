import MeetingLedger.Yaml.Basic

/-!
# Scalars without quotes

Such a scalar stands for nothing, a truth value, a number or its own text.
-/

namespace MeetingLedger.Yaml.Scalar

def isNull (s : String) : Bool :=
  s.isEmpty || s == "null" || s == "Null" || s == "NULL" || s == "~"

def bool? (s : String) : Option Bool :=
  if s == "true" || s == "True" || s == "TRUE" then some true
  else if s == "false" || s == "False" || s == "FALSE" then some false
  else none

def splitSign : List Char → Option Bool × List Char
  | '+' :: cs => (some false, cs)
  | '-' :: cs => (some true, cs)
  | cs => (none, cs)

/-- Zeros in front of more digits make a text, not a number. -/
def isPadded (cs : List Char) : Bool :=
  match (splitSign cs).2 with
  | '0' :: ds => !ds.isEmpty && ds.all isAsciiDigit
  | _ => false

def magnitude? (base : Nat) (cs : List Char) : Option Nat :=
  if cs.isEmpty then none else digits? base cs

def integer? (cs : List Char) : Option Int := do
  let (sign, body) := splitSign cs
  let n ← match body with
    | '0' :: 'x' :: ds => magnitude? 16 ds
    | '0' :: 'o' :: ds => magnitude? 8 ds
    | '0' :: 'b' :: ds => magnitude? 2 ds
    | ds => if isPadded cs then none else magnitude? 10 ds
  some (if sign == some true then -(n : Int) else n)

def real? (cs : List Char) : Option Real64 :=
  let s := String.ofList cs
  let unsigned := match cs with
    | '+' :: rest => rest
    | rest => rest
  let t := String.ofList unsigned
  if (cs.head? == some '+' && (splitSign unsigned).1.isSome) || isPadded cs then none
  else if t == ".inf" || t == ".Inf" || t == ".INF" then some (.infinity false)
  else if s == "-.inf" || s == "-.Inf" || s == "-.INF" then some (.infinity true)
  else if s == ".nan" || s == ".NaN" || s == ".NAN" then some .nan
  else
    match Real64.read? unsigned with
    | some (.finite x) => some (.finite x)
    | _ => none

/-- The value of a scalar, `none` if it is an integer that no word holds. -/
def resolve? (s : String) : Option Yaml :=
  let cs := s.toList
  if isNull s then some .null
  else
    match bool? s, integer? cs with
    | some b, _ => some (.boolean b)
    | none, some n =>
      match Whole.ofInt? n with
      | some w => some (.number (.whole w))
      | none =>
        if -(Nat.pow 2 127 : Int) ≤ n && n < (Nat.pow 2 128 : Int) then none
        else some (((real? cs).map fun x => .number (.real x)).getD (.string s))
    | none, none => some (((real? cs).map fun x => .number (.real x)).getD (.string s))

/-- The value of a scalar with a tag of the core schema. -/
def resolveAs? (tag : String) (quoted : Bool) (s : String) : Option Yaml :=
  if tag == "str" || (quoted && tag == "") then some (.string s)
  else do
    let v ← resolve? s
    match tag, v with
    | "null", .null | "bool", .boolean _ | "int", .number (.whole _) => some v
    | "float", .number n => some (.number (.real n.toReal))
    | "", _ => some v
    | _, _ => none

end MeetingLedger.Yaml.Scalar
