import MeetingLedger.Container.SortedMap
import MeetingLedger.Json.Writer
import MeetingLedger.Text.Character

/-!
# Times of the phases of a command

How long the phases of a command take. Samples are taken only while sampling is on, and a report
takes them all away. Durations are whole microseconds.
-/

namespace MeetingLedger.Timing

structure Phase where
  name : String
  count : Nat
  total : Nat
  median : Nat
  max : Nat

structure Report where
  phases : List Phase

structure Sampling where
  isEnabled : Bool
  samples : SortedMap String (List Nat)

namespace Sampling

def off : Sampling := ⟨false, ∅⟩

def clear (s : Sampling) : Sampling := { s with samples := ∅ }

/-- Turns sampling on or off; turning it off forgets all samples. -/
def setEnabled (s : Sampling) (enabled : Bool) : Sampling :=
  ⟨enabled, if enabled then s.samples else ∅⟩

def record (s : Sampling) (phase : String) (duration : Nat) : Sampling :=
  if s.isEnabled then { s with samples := s.samples.update phase [] (· ++ [duration]) } else s

/-- The samples of a phase put together; of an even number of samples the upper middle one is
the median. -/
def summarize (name : String) (durations : List Nat) : Phase :=
  let sorted := durations.mergeSort
  ⟨name, sorted.length, sorted.foldl (· + ·) 0, (sorted[sorted.length / 2]?).getD 0,
    sorted.getLast?.getD 0⟩

def takeReport (s : Sampling) : Report × Sampling :=
  (⟨s.samples.entries.map fun e => summarize e.1 e.2⟩, s.clear)

end Sampling

/-- Runs a phase and samples how long it takes by a clock that counts microseconds. It is compiled
as it stands, so that the phase runs between the two looks at the clock. -/
@[noinline, nospecialize]
def timed {m : Type → Type} [Monad m] {α : Type} (clock : m Nat) (phase : String)
    (act : Unit → α) : StateT Sampling m α := do
  let start ← clock
  let a ← pure (act ())
  let stop ← clock
  modify (·.record phase (stop - start))
  pure a

def threeDigits (n : Nat) : String :=
  let digits := (toString n).toList
  String.ofList (List.replicate (3 - digits.length) '0' ++ digits)

def durationText (micros : Nat) : String :=
  if 1000000 ≤ micros then
    s!"{micros / 1000000}.{threeDigits (micros % 1000000 / 1000)}s"
  else if 1000 ≤ micros then s!"{micros / 1000}.{threeDigits (micros % 1000)}ms"
  else s!"{micros}µs"

def padEnd (width : Nat) (s : String) : String :=
  s ++ String.ofList (List.replicate (width - s.length) ' ')

def padStart (width : Nat) (s : String) : String :=
  String.ofList (List.replicate (width - s.length) ' ') ++ s

namespace Report

def isEmpty (r : Report) : Bool := r.phases.isEmpty

def toJson (r : Report) : Json :=
  .object [("timing", .array (r.phases.map fun p => .object [
    ("count", .ofNat p.count), ("max_us", .ofNat p.max), ("median_us", .ofNat p.median),
    ("phase", .string p.name), ("total_us", .ofNat p.total)]))]

def row (width : Nat) (name count total median max : String) : String :=
  "  ".intercalate [padEnd width name, padStart 5 count, padStart 10 total, padStart 10 median,
    padStart 10 max] ++ "\n"

/-- The report as a table. The first column is as wide as the longest name is in bytes. -/
def table (r : Report) : String :=
  if r.isEmpty then "no timing samples recorded\n"
  else
    let width := r.phases.foldl (fun w p => Nat.max w p.name.utf8ByteSize) "phase".length
    let rows := r.phases.map fun p => row width p.name (toString p.count)
      (durationText p.total) (durationText p.median) (durationText p.max)
    String.join (row width "phase" "count" "total" "median" "max" :: rows)

end Report

def isTruthy (value : String) : Bool :=
  let word := String.ofList ((trimBlanks value.toList).map Char.toLower)
  ["1", "true", "yes", "on"].contains word

end MeetingLedger.Timing
