import MeetingLedger.Arithmetic.Shortest
import MeetingLedger.Container.SortedMap

/-!
# JSON values

Integers and floating point numbers are different values, and the members of an object are a list,
ascending by name unless a value was just read from text.
-/

namespace MeetingLedger

/-- An integer that fits 64 bits, with or without a sign. -/
structure Whole where
  value : Int
  bounded : -9223372036854775808 ≤ value ∧ value < 18446744073709551616
deriving DecidableEq

namespace Whole

def ofUInt64 (n : UInt64) : Whole :=
  ⟨n.toNat, by have := n.toNat_lt; omega⟩

def ofInt64 (n : Int64) : Whole :=
  ⟨n.toInt, by have := n.toInt_lt; have := n.le_toInt; omega⟩

def toUInt64? (n : Whole) : Option UInt64 :=
  if 0 ≤ n.value then some (UInt64.ofNat n.value.toNat) else none

def toInt64? (n : Whole) : Option Int64 :=
  if n.value < 9223372036854775808 then some (Int64.ofInt n.value) else none

def ofInt? (n : Int) : Option Whole :=
  if h : -9223372036854775808 ≤ n ∧ n < 18446744073709551616 then some ⟨n, h⟩ else none

@[simp] theorem toUInt64?_ofUInt64 (n : UInt64) : (ofUInt64 n).toUInt64? = some n := by
  simp [ofUInt64, toUInt64?]

@[simp] theorem toInt64?_ofInt64 (n : Int64) : (ofInt64 n).toInt64? = some n := by
  have := n.toInt_lt
  simp_all [toInt64?, ofInt64]

end Whole

inductive Number where
  | whole (n : Whole)
  | real (x : Double)
deriving DecidableEq

namespace Number

/-- Numbers of one kind with one value; both zeros of a floating point number agree. -/
def same : Number → Number → Bool
  | .whole a, .whole b => a.value == b.value
  | .real x, .real y => x.rank == y.rank
  | _, _ => false

def toReal : Number → Real64
  | .whole n => .ofRatio (n.value < 0) n.value.natAbs 1
  | .real x => .finite x

end Number

inductive Json where
  | null
  | boolean (b : Bool)
  | number (n : Number)
  | string (s : String)
  | array (items : List Json)
  | object (members : List (String × Json))
deriving Inhabited

namespace Json

mutual
def same : Json → Json → Bool
  | null, null => true
  | boolean a, boolean b => a == b
  | number a, number b => a.same b
  | string a, string b => a == b
  | array xs, array ys => sameItems xs ys
  | object xs, object ys => sameMembers xs ys
  | _, _ => false

def sameItems : List Json → List Json → Bool
  | [], [] => true
  | x :: xs, y :: ys => same x y && sameItems xs ys
  | _, _ => false

def sameMembers : List (String × Json) → List (String × Json) → Bool
  | [], [] => true
  | (k, x) :: xs, (l, y) :: ys => k == l && same x y && sameMembers xs ys
  | _, _ => false
end

instance : BEq Json := ⟨same⟩

mutual
/-- The value with the members of every object ascending; of members with one name the last
stays. -/
def sorted : Json → Json
  | array items => array (sortedItems items)
  | object members => object (Entries.ofList (sortedMembers members))
  | v => v

def sortedItems : List Json → List Json
  | [] => []
  | v :: vs => sorted v :: sortedItems vs

def sortedMembers : List (String × Json) → List (String × Json)
  | [] => []
  | (k, v) :: ms => (k, sorted v) :: sortedMembers ms
end

def ofUInt64 (n : UInt64) : Json := number (.whole (.ofUInt64 n))

def ofNat (n : Nat) : Json := ofUInt64 (UInt64.ofNat n)

def ofInt64 (n : Int64) : Json := number (.whole (.ofInt64 n))

def ofIds (ids : List UInt64) : Json := array (ids.map ofUInt64)

def ofStrings (texts : List String) : Json := array (texts.map string)

def ofOption {α : Type} (f : α → Json) : Option α → Json
  | none => null
  | some a => f a

def ofMap (m : SortedMap String Json) : Json := object m.entries

def isNull : Json → Bool
  | null => true
  | _ => false

/-- The integer of a value that is an integer and not negative. -/
def id? : Json → Option UInt64
  | number (.whole n) => n.toUInt64?
  | _ => none

def int64? : Json → Option Int64
  | number (.whole n) => n.toInt64?
  | _ => none

def bool? : Json → Option Bool
  | boolean b => some b
  | _ => none

def string? : Json → Option String
  | string s => some s
  | _ => none

def array? : Json → Option (List Json)
  | array items => some items
  | _ => none

def members? : Json → Option (List (String × Json))
  | object members => some members
  | _ => none

def member? (v : Json) (name : String) : Option Json :=
  v.members?.bind fun members => (members.find? (·.1 == name)).map (·.2)

/-- The ids in a list, everything else in it ignored; none if the value is no list. -/
def ids (v : Option Json) : List UInt64 :=
  ((v.bind array?).getD []).filterMap id?

@[simp] theorem id?_ofUInt64 (n : UInt64) : (ofUInt64 n).id? = some n := by
  simp [ofUInt64, id?]

@[simp] theorem int64?_ofInt64 (n : Int64) : (ofInt64 n).int64? = some n := by
  simp [ofInt64, int64?]

end Json

end MeetingLedger
