import MeetingLedger.Json.Basic
import MeetingLedger.Text.Character

/-!
# JSON values from text

Members keep the order and the repetitions of the text, so that a reader of records can refuse a
repeated name.
-/

namespace MeetingLedger

namespace Double

def mul (x y : Double) : Real64 :=
  let (a, b) := x.ratio
  let (c, d) := y.ratio
  .ofRatio (x.negative != y.negative) (a * c) (b * d)

def div (x y : Double) : Real64 :=
  let (a, b) := x.ratio
  let (c, d) := y.ratio
  .ofRatio (x.negative != y.negative) (a * d) (b * c)

def powerOfTen (k : Nat) : Real64 := .ofRatio false (Nat.pow 10 k) 1

def scaleDownOnce (x : Double) (k : Nat) : Real64 :=
  match powerOfTen k with
  | .finite p => x.div p
  | other => other

/-- Division by `10 ^ 308` as often as the first argument says, then by a smaller power of ten,
with a rounding each; a zero stays as it is. -/
def scaleDownSteps : Nat → Double → Nat → Real64
  | 0, x, k => x.scaleDownOnce k
  | steps + 1, x, k =>
    if x.magnitude = 0 then .finite x
    else
      match x.scaleDownOnce 308 with
      | .finite y => scaleDownSteps steps y k
      | other => other

def scaleDown (x : Double) (k : Nat) : Real64 :=
  let steps := (k - 1) / 308
  scaleDownSteps steps x (k - 308 * steps)

def scaleUp (x : Double) (k : Nat) : Real64 :=
  if x.magnitude = 0 then .finite x
  else
    match powerOfTen k with
    | .finite p => x.mul p
    | other => other

end Double

structure Significand where
  value : Nat
  exponent : Int
  full : Bool

namespace Significand

/-- One more digit before the point; when the word is full, the digit only scales. -/
def addWhole (s : Significand) (digit : Nat) : Significand :=
  if !s.full && s.value * 10 + digit < UInt64.size then { s with value := s.value * 10 + digit }
  else { s with exponent := s.exponent + 1, full := true }

/-- One more digit after the point; when the word is full, the digit is dropped. -/
def addFraction (s : Significand) (digit : Nat) : Significand :=
  if !s.full && s.value * 10 + digit < UInt64.size then
    { s with value := s.value * 10 + digit, exponent := s.exponent - 1 }
  else { s with full := true }

def toDouble? (s : Significand) (negative : Bool) : Option Double :=
  match Real64.ofRatio negative s.value 1 with
  | .finite x =>
    match (if 0 ≤ s.exponent then x.scaleUp s.exponent.toNat
      else x.scaleDown (-s.exponent).toNat) with
    | .finite y => some y
    | _ => none
  | _ => none

end Significand

namespace Json.Reader

def skipBlank (cs : List Char) : List Char :=
  cs.dropWhile fun c => c == ' ' || c == '\n' || c == '\t' || c == '\r'

def unit : List Char → Option (Nat × List Char)
  | a :: b :: c :: d :: cs => (digits? 16 [a, b, c, d]).map (·, cs)
  | _ => none

def escape : List Char → Option (Char × List Char)
  | '"' :: cs => some ('"', cs)
  | '\\' :: cs => some ('\\', cs)
  | '/' :: cs => some ('/', cs)
  | 'b' :: cs => some ('\x08', cs)
  | 'f' :: cs => some ('\x0c', cs)
  | 'n' :: cs => some ('\n', cs)
  | 'r' :: cs => some ('\r', cs)
  | 't' :: cs => some ('\t', cs)
  | 'u' :: cs => do
    let (high, cs) ← unit cs
    if 0xDC00 ≤ high && high < 0xE000 then none
    else if 0xD800 ≤ high && high < 0xDC00 then
      match cs with
      | '\\' :: 'u' :: cs => do
        let (low, cs) ← unit cs
        if 0xDC00 ≤ low && low < 0xE000 then
          some (Char.ofNat (0x10000 + (high - 0xD800) * 0x400 + (low - 0xDC00)), cs)
        else none
      | _ => none
    else some (Char.ofNat high, cs)
  | _ => none

/-- The characters up to the closing quote; the first argument bounds their number. -/
def stringBody : Nat → List Char → Option (List Char × List Char)
  | 0, _ => none
  | _, [] => none
  | _, '"' :: cs => some ([], cs)
  | bound + 1, '\\' :: cs => do
    let (c, cs) ← escape cs
    let (s, cs) ← stringBody bound cs
    some (c :: s, cs)
  | bound + 1, c :: cs =>
    if c.toNat < 32 then none
    else do
      let (s, cs) ← stringBody bound cs
      some (c :: s, cs)

def string (cs : List Char) : Option (String × List Char) :=
  (stringBody (cs.length + 1) cs).map fun (s, rest) => (String.ofList s, rest)

def someDigits (cs : List Char) : Option (List Nat × List Char) :=
  let taken := cs.takeWhile isAsciiDigit
  if taken.isEmpty then none
  else some (taken.map fun c => c.toNat - '0'.toNat, cs.dropWhile isAsciiDigit)

def wholePart (cs : List Char) : Option (Significand × List Char) := do
  let (ds, rest) ← someDigits cs
  if ds.head? = some 0 && ds.length ≠ 1 then none
  else some (ds.foldl Significand.addWhole ⟨0, 0, false⟩, rest)

def exponentPart (cs : List Char) : Option (Int × List Char) := do
  let (negative, cs) := match cs with
    | '+' :: cs => (false, cs)
    | '-' :: cs => (true, cs)
    | cs => (false, cs)
  let (ds, rest) ← someDigits cs
  let n : Nat := ds.foldl (fun n d => n * 10 + d) 0
  some (if negative then -(n : Int) else n, rest)

/-- An integer that needs no point and no exponent: a floating point number if it is out of
range or a negative zero. -/
def integer (s : Significand) (negative : Bool) : Option Number :=
  if s.full then (s.toDouble? negative).map .real
  else if negative && s.value = 0 then some (.real (.zero true))
  else
    match Whole.ofInt? (if negative then -(s.value : Int) else s.value) with
    | some n => some (.whole n)
    | none => (s.toDouble? negative).map .real

def number (cs : List Char) : Option (Number × List Char) := do
  let (negative, cs) := match cs with
    | '-' :: cs => (true, cs)
    | cs => (false, cs)
  let (s, cs) ← wholePart cs
  let (s, cs, fraction) ← match cs with
    | '.' :: cs => do
      let (ds, rest) ← someDigits cs
      some (ds.foldl Significand.addFraction { s with full := false }, rest, true)
    | cs => some (s, cs, false)
  match cs with
  | 'e' :: cs | 'E' :: cs => do
    let (e, rest) ← exponentPart cs
    let x ← Significand.toDouble? { s with exponent := s.exponent + e } negative
    some (.real x, rest)
  | cs =>
    if fraction then (s.toDouble? negative).map (.real ·, cs)
    else (integer s negative).map (·, cs)

mutual
/-- A value. The first argument bounds the number of steps, the second the levels of nesting. -/
def value : Nat → Nat → List Char → Option (Json × List Char)
  | 0, _, _ => none
  | steps + 1, levels, cs =>
    match skipBlank cs with
    | '"' :: cs => (string cs).map fun (s, rest) => (.string s, rest)
    | '[' :: cs =>
      match levels with
      | 0 => none
      | levels + 1 =>
        match skipBlank cs with
        | ']' :: rest => some (.array [], rest)
        | cs => (items steps levels cs).map fun (vs, rest) => (.array vs, rest)
    | '\x7b' :: cs =>
      match levels with
      | 0 => none
      | levels + 1 =>
        match skipBlank cs with
        | '\x7d' :: rest => some (.object [], rest)
        | cs => (members steps levels cs).map fun (ms, rest) => (.object ms, rest)
    | cs =>
      match dropLiteral? ['n', 'u', 'l', 'l'] cs, dropLiteral? ['t', 'r', 'u', 'e'] cs,
        dropLiteral? ['f', 'a', 'l', 's', 'e'] cs with
      | some rest, _, _ => some (.null, rest)
      | _, some rest, _ => some (.boolean true, rest)
      | _, _, some rest => some (.boolean false, rest)
      | none, none, none => (number cs).map fun (n, rest) => (.number n, rest)

def items : Nat → Nat → List Char → Option (List Json × List Char)
  | 0, _, _ => none
  | steps + 1, levels, cs => do
    let (v, cs) ← value steps levels cs
    match skipBlank cs with
    | ']' :: rest => some ([v], rest)
    | ',' :: cs => do
      let (vs, rest) ← items steps levels cs
      some (v :: vs, rest)
    | _ => none

def members : Nat → Nat → List Char → Option (List (String × Json) × List Char)
  | 0, _, _ => none
  | steps + 1, levels, cs =>
    match skipBlank cs with
    | '"' :: cs => do
      let (k, cs) ← string cs
      match skipBlank cs with
      | ':' :: cs => do
        let (v, cs) ← value steps levels cs
        match skipBlank cs with
        | '\x7d' :: rest => some ([(k, v)], rest)
        | ',' :: cs => do
          let (ms, rest) ← members steps levels cs
          some ((k, v) :: ms, rest)
        | _ => none
      | _ => none
    | _ => none
end

end Json.Reader

namespace Json

def maximumNesting : Nat := 127

/-- The value that a text as a whole denotes, its members as the text lists them. -/
def read? (text : String) : Option Json := do
  let cs := text.toList
  let (v, rest) ← Reader.value (2 * cs.length + 1) maximumNesting cs
  if (Reader.skipBlank rest).isEmpty then some v else none

/-- The value that a text denotes, its members ascending. -/
def parse? (text : String) : Option Json := (read? text).map sorted

end Json

end MeetingLedger
