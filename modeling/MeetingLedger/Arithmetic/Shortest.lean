import MeetingLedger.Arithmetic.Double

/-!
# Shortest decimals

The decimal text of a floating point number: the fewest digits that still read back as the number,
the nearest of those to it, laid out as the reader of the text expects.
-/

namespace MeetingLedger

/-- Significant digits `d₁d₂…dₙ` of the number `d₁.d₂…dₙ * 10 ^ exponent`. -/
structure Digits where
  value : Nat
  count : Nat
  exponent : Int
deriving DecidableEq

/-- The open or closed interval of reals that round to one floating point number, scaled by a
common denominator. -/
structure RoundingInterval where
  lower : Nat
  middle : Nat
  upper : Nat
  denominator : Nat
  closed : Bool

namespace Double

def roundingInterval (x : Double) : RoundingInterval :=
  let (m, e) := x.scaled
  let below := if m = Nat.pow 2 52 && -1074 < e then 1 else 2
  let scale := Nat.pow 2 (e - 2).toNat
  ⟨(4 * m - below) * scale, 4 * m * scale, (4 * m + 2) * scale, Nat.pow 2 (2 - e).toNat, m % 2 == 0⟩

end Double

namespace RoundingInterval

def contains (i : RoundingInterval) (num den : Nat) : Bool :=
  let x := num * i.denominator
  if i.closed then i.lower * den ≤ x && x ≤ i.upper * den
  else i.lower * den < x && x < i.upper * den

def decimalExponent (num den : Nat) : Int :=
  if den ≤ num then ((Nat.toDigits 10 (num / den)).length : Int) - 1
  else
    let steps := (Nat.toDigits 10 (den / num)).length
    if den = num * Nat.pow 10 (steps - 1) then 1 - (steps : Int) else -(steps : Int)

/-- The member of the grid of multiples of `10 ^ step` that lies in the interval nearest to its
middle, a tie to the even multiple. -/
def nearest? (i : RoundingInterval) (step : Int) : Option Nat :=
  let up := Nat.pow 10 step.toNat
  let down := Nat.pow 10 (-step).toNat
  let num := i.middle * down
  let den := i.denominator * up
  let below := num / den
  let inside (d : Nat) : Bool := i.contains (d * up) down
  let rest := 2 * (num % den)
  match inside below, inside (below + 1) with
  | true, true =>
    if rest < den || (rest = den && below % 2 = 0) then some below else some (below + 1)
  | true, false => some below
  | false, true => some (below + 1)
  | false, false => none

def search (i : RoundingInterval) (exponent : Int) : Nat → Nat → Digits
  | 0, count => ⟨0, count, exponent⟩
  | tries + 1, count =>
    match i.nearest? (exponent + 1 - count) with
    | some d => ⟨d, count, exponent⟩
    | none => search i exponent tries (count + 1)

end RoundingInterval

namespace Digits

def trimmed (d : Digits) : Digits :=
  let text := Nat.toDigits 10 d.value
  let kept := (text.reverse.dropWhile (· == '0')).reverse
  ⟨d.value / Nat.pow 10 (text.length - kept.length), kept.length,
    d.exponent + text.length - d.count⟩

end Digits

namespace Double

/-- The shortest decimal that reads back as the absolute value of a nonzero number. -/
def shortest (x : Double) : Digits :=
  let i := x.roundingInterval
  let p := RoundingInterval.decimalExponent i.middle i.denominator
  (i.search p 17 1).trimmed

end Double

structure DecimalLayout where
  /-- The exponents that are written without an exponent part. -/
  positional : Int → Bool
  /-- Whether a whole number still shows one digit after the point. -/
  keepsPoint : Bool

namespace DecimalLayout

def writePositional (layout : DecimalLayout) (d : Digits) : String :=
  let text := Nat.toDigits 10 d.value
  if d.exponent < 0 then
    "0." ++ String.ofList (List.replicate ((-d.exponent).toNat - 1) '0' ++ text)
  else
    let whole := d.exponent.toNat + 1
    let padded := text ++ List.replicate (whole - text.length) '0'
    let fraction := padded.drop whole
    let tail := if fraction.isEmpty then (if layout.keepsPoint then ".0" else "")
      else "." ++ String.ofList fraction
    String.ofList (padded.take whole) ++ tail

def writeScientific (d : Digits) : String :=
  let text := Nat.toDigits 10 d.value
  let fraction := text.drop 1
  let tail := if fraction.isEmpty then "" else "." ++ String.ofList fraction
  let sign := if d.exponent < 0 then "-" else "+"
  String.ofList (text.take 1) ++ tail ++ "e" ++ sign ++ toString d.exponent.natAbs

def write (layout : DecimalLayout) (x : Double) : String :=
  let sign := if x.negative then "-" else ""
  let body :=
    if x.magnitude = 0 then (if layout.keepsPoint then "0.0" else "0")
    else
      let d := x.shortest
      if layout.positional d.exponent then layout.writePositional d else writeScientific d
  sign ++ body

end DecimalLayout

end MeetingLedger
