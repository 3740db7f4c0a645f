/-!
# Floating point numbers

Binary floating point numbers of 64 bits, kept as a sign and the remaining 63 bits, with exact
conversions from and to ratios of natural numbers.
-/

namespace MeetingLedger

/-- A finite binary floating point number of 64 bits. The magnitude holds the exponent and
fraction bits, so that it grows with the absolute value. -/
structure Double where
  negative : Bool
  magnitude : Nat
  finite : magnitude < 2047 * Nat.pow 2 52 := by decide
deriving DecidableEq

/-- What an arithmetic operation yields: a finite number, an infinity or no number. -/
inductive Real64 where
  | nan
  | infinity (negative : Bool)
  | finite (x : Double)
deriving DecidableEq

/-- The quotient rounded to the nearest integer, a tie to the even one. -/
def roundDiv (num den : Nat) : Nat :=
  let q := num / den
  let r := num % den
  if 2 * r < den then q
  else if den < 2 * r then q + 1
  else q + q % 2

namespace Double

def zero (negative : Bool) : Double := ⟨negative, 0, by decide⟩

/-- The integer that orders numbers like their values; both zeros have the same one. -/
def rank (x : Double) : Int := if x.negative then -(x.magnitude : Int) else x.magnitude

def scaled (x : Double) : Nat × Int :=
  let exponent : Nat := x.magnitude / Nat.pow 2 52
  let fraction : Nat := x.magnitude % Nat.pow 2 52
  if exponent = 0 then (fraction, -1074) else (Nat.pow 2 52 + fraction, (exponent : Int) - 1075)

def ratio (x : Double) : Nat × Nat :=
  let (m, e) := x.scaled
  (m * Nat.pow 2 e.toNat, Nat.pow 2 (-e).toNat)

end Double

namespace Real64

def ofMagnitude (negative : Bool) (magnitude : Nat) : Real64 :=
  if h : magnitude < 2047 * Nat.pow 2 52 then .finite ⟨negative, magnitude, h⟩
  else .infinity negative

/-- The largest `e` with `2 ^ e ≤ num / den`, for positive `num` and `den`. -/
def binaryExponent (num den : Nat) : Int :=
  let e : Int := (num.log2 : Int) - den.log2
  if num * Nat.pow 2 (-e).toNat < den * Nat.pow 2 e.toNat then e - 1 else e

/-- The floating point number nearest to a ratio, a tie to the even mantissa. -/
def ofRatio (negative : Bool) (num den : Nat) : Real64 :=
  if num = 0 then .finite (Double.zero negative)
  else
    let e := max (binaryExponent num den - 52) (-1074)
    let mantissa := roundDiv (num * Nat.pow 2 (-e).toNat) (den * Nat.pow 2 e.toNat)
    ofMagnitude negative ((e + 1074).toNat * Nat.pow 2 52 + mantissa)

def ofDecimal (negative : Bool) (digits : Nat) (exponent : Int) : Real64 :=
  if digits = 0 then .finite (Double.zero negative)
  else
    let leading := exponent + (digits.log2 : Int) * 3 / 10
    if 400 < leading then .infinity negative
    else if leading < -400 then .finite (Double.zero negative)
    else ofRatio negative (digits * Nat.pow 10 exponent.toNat) (Nat.pow 10 (-exponent).toNat)

/-- The order of floating point numbers; `nan` is below nothing and above nothing. -/
def lt : Real64 → Real64 → Bool
  | .nan, _ => false
  | _, .nan => false
  | .infinity a, .infinity b => a && !b
  | .infinity a, .finite _ => a
  | .finite _, .infinity b => !b
  | .finite x, .finite y => x.rank < y.rank

end Real64

end MeetingLedger
