import MeetingLedger.Migration.Step

/-!
# Runs of a step

A step at work on the positions of a log. Each position is migrated with the history of the
positions before it, as they are after their migration.
-/

namespace MeetingLedger.Migration

open Schema

namespace EventStep

variable (step : EventStep)

def migrateEvents (h : History) : List Event → step.State → Outcome step.State (List Event)
  | [], s => .done [] s
  | e :: es, s =>
    (step.migrateEvent e h s).andThen fun replacement s =>
      (migrateEvents h es s).andThen fun rest s => .done (replacement.getD [e] ++ rest) s

def migratePosition (h : History) (p : Position) (s : step.State) :
    Outcome step.State (List Event) :=
  (step.migrateEvents h p.events (step.openPosition h s)).andThen fun events s =>
    (step.additionalEvents h s).andThen fun more s => .done (events ++ more) s

/-- The positions after their migration, those without events left out. -/
def migratePositions (h : History) : List Position → step.State →
    Outcome step.State (List Position)
  | [], s => .done [] s
  | p :: ps, s =>
    (step.migratePosition h p s).andThen fun events s =>
      match h.applyAll events with
      | ⟨_, some e⟩ => ⟨.error (.history e), s⟩
      | ⟨h, none⟩ =>
        (migratePositions h ps s).andThen fun rest s =>
          .done (if events.isEmpty then rest else { p with events } :: rest) s

/-- The migrated positions, or why there are none, and the step in the state that it reached. -/
def run (registry : Registry) (positions : List Position) :
    Except StepError (List Position) × EventStep :=
  let o := step.migratePositions .empty positions (step.prepare registry step.state)
  (o.result, { step with state := o.state })

end EventStep

/-- Whether the number after the last one fits into 64 bits. -/
def hasNextNumber (positions : List Position) : Bool :=
  positions.getLast?.all fun p => p.position.toNat + 1 < UInt64.size

/-- The positions with events in one more position at the end, if there is a number for it. -/
def appendPosition (positions : List Position) (now : Int64) (events : List Event) :
    List Position :=
  positions ++ [⟨(positions.getLast?.map (·.position + 1)).getD 1, now, none, events⟩]

namespace ModelStep

variable (step : ModelStep)

/-- The positions with the changes that the step asks for in one more position. -/
def migratePositions (now : Int64) (positions : List Position) (s : step.State) :
    Outcome step.State (List Position) :=
  match History.replay positions with
  | .error e => ⟨.error (.history e), s⟩
  | .ok h =>
    (step.migrateModels h s).andThen fun requests s =>
      let events := requests.map ModelChange.toEvent
      if events.isEmpty then .done positions s
      else
        match (h.applyAll events).refusal with
        | some e => ⟨.error (.history e), s⟩
        | none =>
          if hasNextNumber positions then .done (appendPosition positions now events) s
          else ⟨.error .overflow, s⟩

def run (now : Int64) (positions : List Position) :
    Except StepError (List Position) × ModelStep :=
  let o := step.migratePositions now positions step.state
  (o.result, { step with state := o.state })

end ModelStep

/-- Runs a step of either kind; `now` is the time of a position that it appends. -/
def Step.run (registry : Registry) (now : Int64) (positions : List Position) :
    Step → Except StepError (List Position) × Step
  | .event s => let (r, s) := s.run registry positions; (r, .event s)
  | .model s => let (r, s) := s.run now positions; (r, .model s)

end MeetingLedger.Migration
