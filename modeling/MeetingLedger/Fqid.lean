import MeetingLedger.Container.SortedMap
import MeetingLedger.Text.Character

/-!
# Fully qualified ids

The collection and the number of a model, written `collection/id`.
-/

namespace MeetingLedger

/-- The name of a model: its collection and its id there. -/
structure Fqid where
  collection : String
  id : UInt64
deriving DecidableEq, Inhabited

/-- Lowercase letters, digits and underscores, starting with a letter. -/
def isCollectionName (name : String) : Bool :=
  match name.toList with
  | [] => false
  | c :: cs => isAsciiLower c && cs.all fun d => isAsciiLower d || isAsciiDigit d || d == '_'

/-- A positive decimal number that fits a word, without sign, leading zeros or blanks. -/
def parseId? (cs : List Char) : Option UInt64 :=
  if cs.isEmpty || cs.head? == some '0' || !cs.all isAsciiDigit then none
  else
    let n := Nat.ofDigitChars 10 cs 0
    if n < UInt64.size then some (UInt64.ofNat n) else none

namespace Fqid

def text (f : Fqid) : String := f.collection ++ "/" ++ toString f.id.toNat

instance : ToString Fqid := ⟨text⟩

def field (f : Fqid) (name : String) : String := f.text ++ "/" ++ name

/-- The model that a text names. -/
def parse? (raw : String) : Option Fqid := do
  let (collection, id) ← splitAtFirst '/' raw.toList
  let name := String.ofList collection
  if isCollectionName name then (parseId? id).map fun n => ⟨name, n⟩ else none

def invalidMessage (raw : String) : String :=
  s!"invalid fqid '{raw}': expected '<collection>/<positive id>'"

/-- Collections in alphabetical order, the ids of one collection in increasing order. -/
instance : Ord Fqid := ⟨compareLex (compareOn collection) (compareOn id)⟩

instance : Std.TransOrd Fqid :=
  inferInstanceAs (Std.TransCmp (compareLex (compareOn collection) (compareOn id)))

instance : Std.LawfulEqOrd Fqid where
  compare_self := by
    intro a
    change compareLex (compareOn collection) (compareOn id) a a = .eq
    rw [compareLex_eq_eq]
    exact ⟨Std.ReflOrd.compare_self, Std.ReflOrd.compare_self⟩
  eq_of_compare := by
    intro a b h
    have h : compareLex (compareOn collection) (compareOn id) a b = .eq := h
    rw [compareLex_eq_eq] at h
    obtain ⟨hc, hi⟩ := h
    cases a; cases b
    simp_all [compareOn]

end Fqid

end MeetingLedger
