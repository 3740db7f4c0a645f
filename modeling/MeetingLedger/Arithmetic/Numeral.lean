import MeetingLedger.Arithmetic.Shortest
import MeetingLedger.Text.Character

/-! # Floating point numbers from decimal text, rounded once -/

namespace MeetingLedger

namespace Real64

def mantissa? (cs : List Char) : Option ((List Char × List Char) × List Char) :=
  let whole := cs.takeWhile isAsciiDigit
  let (fraction, rest) := match cs.dropWhile isAsciiDigit with
    | '.' :: rest => (rest.takeWhile isAsciiDigit, rest.dropWhile isAsciiDigit)
    | rest => ([], rest)
  if whole.isEmpty && fraction.isEmpty then none else some ((whole, fraction), rest)

def exponent? (cs : List Char) : Option Int :=
  let (negative, ds) := match cs with
    | '-' :: ds => (true, ds)
    | '+' :: ds => (false, ds)
    | ds => (false, ds)
  if ds.isEmpty || !ds.all isAsciiDigit then none
  else
    let n : Nat := Nat.ofDigitChars 10 ds 0
    some (if negative then -(n : Int) else n)

def readUnsigned? (negative : Bool) (cs : List Char) : Option Real64 := do
  let ((whole, fraction), rest) ← mantissa? cs
  let digits := Nat.ofDigitChars 10 (whole ++ fraction) 0
  let exponent ← match rest with
    | [] => some 0
    | 'e' :: rest | 'E' :: rest => exponent? rest
    | _ => none
  some (ofDecimal negative digits (exponent - fraction.length))

/-- The number that a decimal numeral, `inf`, `infinity` or `nan` denotes, the words in any
case, with an optional sign. -/
def read? (cs : List Char) : Option Real64 :=
  let (negative, body) := match cs with
    | '-' :: rest => (true, rest)
    | '+' :: rest => (false, rest)
    | rest => (false, rest)
  let word := String.ofList (body.map Char.toLower)
  if word == "inf" || word == "infinity" then some (.infinity negative)
  else if word == "nan" then some .nan
  else readUnsigned? negative body

def plainLayout : DecimalLayout := ⟨fun _ => true, false⟩

def text : Real64 → String
  | nan => "NaN"
  | infinity negative => if negative then "-inf" else "inf"
  | finite x => plainLayout.write x

end Real64

end MeetingLedger
