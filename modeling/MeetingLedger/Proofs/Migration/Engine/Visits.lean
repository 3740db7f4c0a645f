import MeetingLedger.Migration.Scripted
import MeetingLedger.Proofs.Migration.Engine.Stepwise

/-!
# What an event step gets to see

A step that takes down every call that it gets, with the answer that it gives, behaves like the step
itself. From its notes it can be read off that each position is visited with the history that the
positions before it leave after their migration, and that this history is one of replay.
-/

namespace MeetingLedger.Migration

open Schema Storage

/-- A call of a step within a position, with its answer. -/
inductive Call where
  | openPosition (h : History)
  | migrateEvent (h : History) (e : Event) (answer : Except StepError (Option (List Event)))
  | additionalEvents (h : History) (answer : Except StepError (List Event))

/-- The visit of a step to a position: the history that all its calls get, the answers to the
events of the position, and the events that it adds. -/
structure Visit where
  position : Position
  history : History
  answers : List (Option (List Event))
  additional : List Event

namespace Visit

def calls (v : Visit) : List Call :=
  .openPosition v.history ::
    (List.zipWith (fun e a => .migrateEvent v.history e (.ok a)) v.position.events v.answers ++
      [.additionalEvents v.history (.ok v.additional)])

/-- The events with which the position ends: each event is kept or replaced. -/
def events (v : Visit) : List Event :=
  (List.zipWith (fun e a => a.getD [e]) v.position.events v.answers).flatten ++ v.additional

def result? (v : Visit) : Option Position :=
  if v.events.isEmpty then none else some { v.position with events := v.events }

/-- A visit in which every event was answered. -/
def IsComplete (v : Visit) : Prop := v.answers.length = v.position.events.length

def heading (p : Position) : UInt64 × Int64 × Option UInt64 := (p.position, p.timestamp, p.userId)

theorem sublist_heading (visits : List Visit) :
    ((visits.filterMap result?).map heading).Sublist
      ((visits.map Visit.position).map heading) := by
  induction visits with
  | nil => exact .slnil
  | cons v visits ih =>
    rw [List.filterMap_cons, result?, List.map_cons, List.map_cons]
    cases v.events.isEmpty with
    | true => exact ih.cons _
    | false => exact ih.cons_cons _

end Visit

namespace EventStep

/-- The step with notes of its calls. -/
def noting (step : EventStep) : EventStep where
  target := step.target
  name := step.name
  State := step.State × List Call
  state := (step.state, [])
  prepare := fun r s => (step.prepare r s.1, s.2)
  openPosition := fun h s => (step.openPosition h s.1, s.2 ++ [.openPosition h])
  migrateEvent := fun e h s =>
    let o := step.migrateEvent e h s.1
    ⟨o.result, o.state, s.2 ++ [.migrateEvent h e o.result]⟩
  additionalEvents := fun h s =>
    let o := step.additionalEvents h s.1
    ⟨o.result, o.state, s.2 ++ [.additionalEvents h o.result]⟩

/-- The calls that a step gets in a run. -/
def callsOf (step : EventStep) (r : Registry) (ps : List Position) : List Call :=
  (step.noting.migratePositions .empty ps (step.noting.prepare r step.noting.state)).state.2

variable (step : EventStep)

/-- An outcome of the step with notes and one of the step, up to the notes. -/
def SameOutcome {α : Type} (o : Outcome step.noting.State α) (o' : Outcome step.State α) : Prop :=
  o.result = o'.result ∧ o.state.1 = o'.state

theorem SameOutcome.andThen {step : EventStep} {α β : Type} {o : Outcome step.noting.State α}
    {o' : Outcome step.State α} {next : α → step.noting.State → Outcome step.noting.State β}
    {next' : α → step.State → Outcome step.State β} (h : step.SameOutcome o o')
    (hnext : ∀ a s, step.SameOutcome (next a s) (next' a s.1)) :
    step.SameOutcome (o.andThen next) (o'.andThen next') := by
  obtain ⟨result, state⟩ := o
  obtain ⟨result', state'⟩ := o'
  obtain ⟨rfl, rfl⟩ := h
  cases result with
  | ok a => exact hnext a state
  | error e => exact ⟨rfl, rfl⟩

theorem migrateEvents_noting (h : History) (es : List Event) (s : step.noting.State) :
    step.SameOutcome (step.noting.migrateEvents h es s) (step.migrateEvents h es s.1) := by
  induction es generalizing s with
  | nil => exact ⟨rfl, rfl⟩
  | cons e es ih =>
    refine SameOutcome.andThen ⟨rfl, rfl⟩ fun replacement s => ?_
    exact (ih s).andThen fun rest s => ⟨rfl, rfl⟩

theorem migratePosition_noting (h : History) (p : Position) (s : step.noting.State) :
    step.SameOutcome (step.noting.migratePosition h p s) (step.migratePosition h p s.1) := by
  refine (step.migrateEvents_noting h p.events _).andThen fun events s => ?_
  exact SameOutcome.andThen ⟨rfl, rfl⟩ fun more s => ⟨rfl, rfl⟩

theorem migratePositions_noting (h : History) (ps : List Position) (s : step.noting.State) :
    step.SameOutcome (step.noting.migratePositions h ps s) (step.migratePositions h ps s.1) := by
  induction ps generalizing h s with
  | nil => exact ⟨rfl, rfl⟩
  | cons p ps ih =>
    refine (step.migratePosition_noting h p s).andThen fun events s => ?_
    rcases h.applyAll events with ⟨h₁, _ | refusal⟩
    · exact (ih h₁ s).andThen fun rest s => ⟨rfl, rfl⟩
    · exact ⟨rfl, rfl⟩

/-- Taking notes changes nothing about a run. -/
theorem run_noting (r : Registry) (ps : List Position) :
    (step.noting.run r ps).1 = (step.run r ps).1 :=
  (step.migratePositions_noting .empty ps _).1

variable {step} {s t : step.noting.State}

theorem notes_of_migrateEvents {h : History} {es events : List Event}
    (hdone : step.noting.migrateEvents h es s = .done events t) :
    ∃ answers : List (Option (List Event)), answers.length = es.length ∧
      events = (List.zipWith (fun e a => a.getD [e]) es answers).flatten ∧
      t.2 = s.2 ++ List.zipWith (fun e a => .migrateEvent h e (.ok a)) es answers := by
  induction es generalizing s events with
  | nil =>
    obtain ⟨rfl, rfl⟩ := Outcome.done_eq_done_iff.1 hdone
    exact ⟨[], rfl, rfl, (List.append_nil _).symm⟩
  | cons e es ih =>
    obtain ⟨answer, s₁, rest, hfirst, hrest, rfl⟩ := migrateEvents_cons_eq_done_iff.1 hdone
    obtain ⟨answers, hlength, rfl, hnotes⟩ := ih hrest
    have hanswer : (step.migrateEvent e h s.1).result = .ok answer := congrArg Outcome.result hfirst
    have hnote : s₁.2 = s.2 ++ [.migrateEvent h e (.ok answer)] := by
      rw [← hanswer]
      exact congrArg (fun o => o.state.2) hfirst.symm
    refine ⟨answer :: answers, congrArg (· + 1) hlength, rfl, ?_⟩
    rw [hnotes, hnote, List.append_assoc]
    rfl

theorem notes_of_migratePosition {h : History} {p : Position} {events : List Event}
    (hdone : step.noting.migratePosition h p s = .done events t) :
    ∃ v : Visit, v.position = p ∧ v.history = h ∧ v.IsComplete ∧ v.events = events ∧
      t.2 = s.2 ++ v.calls := by
  obtain ⟨front, s₁, more, hfront, hmore, rfl⟩ := migratePosition_eq_done_iff.1 hdone
  obtain ⟨answers, hlength, rfl, hnotes⟩ := notes_of_migrateEvents hfront
  have hadditional : (step.additionalEvents h s₁.1).result = .ok more :=
    congrArg Outcome.result hmore
  have hnote : t.2 = s₁.2 ++ [.additionalEvents h (.ok more)] := by
    rw [← hadditional]
    exact congrArg (fun o => o.state.2) hmore.symm
  refine ⟨⟨p, h, answers, more⟩, rfl, rfl, hlength, rfl, ?_⟩
  rw [hnote, hnotes]
  simp [Visit.calls, noting]

/-- The notes of a run are those of one visit to each position, every one of which finds the history
that the positions before it leave. -/
theorem notes_of_migratePositions {h : History} {ps out : List Position}
    (hdone : step.noting.migratePositions h ps s = .done out t) :
    ∃ visits : List Visit, visits.map (·.position) = ps ∧ (∀ v ∈ visits, v.IsComplete) ∧
      t.2 = s.2 ++ visits.flatMap Visit.calls ∧ out = visits.filterMap Visit.result? ∧
      ∀ earlier v later, visits = earlier ++ v :: later →
        h.applyAll ((earlier.filterMap Visit.result?).flatMap (·.events)) = ⟨v.history, none⟩ := by
  induction ps generalizing h s out with
  | nil =>
    obtain ⟨rfl, rfl⟩ := Outcome.done_eq_done_iff.1 hdone
    exact ⟨[], rfl, nofun, (List.append_nil _).symm, rfl, fun _ _ _ hsplit => by simp at hsplit⟩
  | cons p ps ih =>
    obtain ⟨events, s₁, h₁, rest, hposition, happly, hrest, rfl⟩ :=
      migratePositions_cons_eq_done_iff.1 hdone
    obtain ⟨v, rfl, rfl, hcomplete, rfl, hnote⟩ := notes_of_migratePosition hposition
    obtain ⟨visits, rfl, hall, hnotes, rfl, hhistory⟩ := ih hrest
    refine ⟨v :: visits, rfl, List.forall_mem_cons.2 ⟨hcomplete, hall⟩, ?_, ?_, ?_⟩
    · rw [hnotes, hnote, List.append_assoc]
      rfl
    · rw [List.filterMap_cons, Visit.result?]
      cases v.events.isEmpty <;> rfl
    · intro earlier w later hsplit
      cases earlier with
      | nil =>
        obtain ⟨rfl, -⟩ := List.cons_eq_cons.1 hsplit
        rfl
      | cons first earlier =>
        obtain ⟨rfl, hrest⟩ := List.cons_eq_cons.1 hsplit
        have hlater := hhistory earlier w later hrest
        rw [List.filterMap_cons, Visit.result?]
        -- A position that is left without events is dropped, and the history is still the same.
        cases hempty : v.events.isEmpty with
        | true =>
          rw [List.isEmpty_iff.1 hempty] at happly
          cases happly
          exact hlater
        | false =>
          simp only [Bool.false_eq_true, if_false, List.flatMap_cons]
          exact History.applyAll_append_eq_iff.2 ⟨h₁, happly, hlater⟩

end EventStep

section Replay

variable {r : Registry} {now : Int64}

theorem ModelStep.replay_of_run {step : ModelStep} {ps out : List Position}
    (hrun : (step.run now ps).1 = .ok out) : ∃ h, History.replay out = .ok h := by
  obtain ⟨h, requests, -, hreplay, -, rfl | ⟨h₁, -, happly, -, rfl⟩⟩ := cases_of_run hrun
  · exact ⟨h, hreplay⟩
  · refine ⟨h₁, replay_eq_ok_iff.2 ?_⟩
    rw [appendPosition, List.flatMap_append]
    refine History.applyAll_append_eq_iff.2 ⟨h, replay_eq_ok_iff.1 hreplay, ?_⟩
    simpa using happly

/-- What a step makes of positions replays. -/
theorem Step.replay_of_run {s : Step} {ps out : List Position} (hrun : (s.run r now ps).1 = .ok out) :
    ∃ h, History.replay out = .ok h := by
  cases s with
  | event s =>
    obtain ⟨h, -, -, hreplay⟩ := EventStep.migrates_of_run hrun
    exact ⟨h, hreplay⟩
  | model s => exact ModelStep.replay_of_run hrun

theorem replay_of_runInOrder {steps : List Step} (hsteps : steps ≠ []) {ps out : List Position}
    (hrun : runInOrder r now steps ps = .ok out) : ∃ h, History.replay out = .ok h := by
  induction steps generalizing ps with
  | nil => exact absurd rfl hsteps
  | cons s steps ih =>
    obtain ⟨next, hfirst, hrun⟩ := (runInOrder_cons_eq_ok_iff r now).1 hrun
    by_cases hlast : steps = []
    · subst hlast
      obtain rfl : next = out := Except.ok.inj hrun
      exact s.replay_of_run hfirst
    · exact ih hlast hrun

theorem runInOrder_ne_replay {steps : List Step} {ps : List Position} {e : HistoryError} :
    runInOrder r now steps ps ≠ .error (.replay e) := by
  induction steps generalizing ps with
  | nil => simp [runInOrder]
  | cons s steps ih =>
    rw [runInOrder]
    cases (s.run r now ps).1 with
    | error e => simp
    | ok positions => exact ih

end Replay

namespace Migrator

variable {m : Migrator} {now : Int64} {target : UInt64}

theorem replay_of_verifyAt {positions : List Position} {e : HistoryError}
    (he : m.verifyAt target positions = .error (.replay e)) : History.replay positions = .error e := by
  rw [verifyAt] at he
  split at he
  · rw [verify] at he
    cases hreplay : History.replay positions with
    | error e' =>
      rw [hreplay] at he
      cases he
      rfl
    | ok h =>
      simp only [hreplay] at he
      split at he <;> cases he
  · cases he

theorem targetProblem?_ne_replay {current : UInt64} {e : HistoryError} :
    m.targetProblem? current target ≠ some (.replay e) := by
  rw [targetProblem?]
  split
  · simp
  · split
    · simp
    · split <;> simp

/-- A migration reports positions that do not replay only if it has no step to run. -/
theorem pending_of_replay {σ : Type} [EventStore σ] {log : EventLog} {store : σ} {e : HistoryError}
    (he : (m.migrateLog now target log store).result = .error (.replay e)) :
    m.chain.pending log.migrationIndex target = [] := by
  have hends := m.logEnds now target log store
  rw [he] at hends
  generalize (m.migrateLog now target log store).store = s at hends
  cases hends with
  | unreachable h => exact absurd h targetProblem?_ne_replay
  | failed _ h => exact absurd h runInOrder_ne_replay
  | inconsistent _ run h =>
    refine Classical.byContradiction fun hsteps => ?_
    obtain ⟨history, hreplay⟩ := replay_of_runInOrder hsteps run
    cases hreplay.symm.trans (replay_of_verifyAt h)

end Migrator

/-- An event step visits every position once, with the history to which the positions before it
replay after their migration. It returns the positions that it did not leave without events, under
their numbers, stamps and users, and they replay. So a migration that finds that positions do not
replay has run no step. -/
theorem steps_see_the_migrated_past :
    (∀ (step : EventStep) (r : Registry) (ps out : List Position), (step.run r ps).1 = .ok out →
      (step.noting.run r ps).1 = .ok out ∧
      ∃ visits : List Visit,
        visits.map (·.position) = ps ∧ (∀ v ∈ visits, v.IsComplete) ∧
        step.callsOf r ps = visits.flatMap Visit.calls ∧
        (∀ earlier v later, visits = earlier ++ v :: later →
          History.replay (earlier.filterMap Visit.result?) = .ok v.history) ∧
        out = visits.filterMap Visit.result? ∧
        (out.map Visit.heading).Sublist (ps.map Visit.heading) ∧
        ∃ h, History.replay out = .ok h) ∧
    ∀ (σ : Type) [EventStore σ] (m : Migrator) (now : Int64) (target : UInt64) (store : σ)
      (e : HistoryError), (m.migrateTo now target store).result = .error (.replay e) →
      ∃ log, EventStore.load (EventStore.enter .write store).2 = .ok log ∧
        m.chain.pending log.migrationIndex target = [] := by
  constructor
  · intro step r ps out hrun
    have hnoting := step.run_noting r ps
    rw [hrun] at hnoting
    obtain ⟨t, hdone⟩ := EventStep.run_eq_ok_iff.1 hnoting
    obtain ⟨visits, hvisits, hcomplete, hnotes, hout, hhistory⟩ :=
      EventStep.notes_of_migratePositions hdone
    obtain ⟨h, -, -, hreplay⟩ := EventStep.migrates_of_run hrun
    refine ⟨hnoting, visits, hvisits, hcomplete, ?_, ?_, hout, ?_, h, hreplay⟩
    · rw [EventStep.callsOf, hdone]
      exact hnotes
    · intro earlier v later hsplit
      exact replay_eq_ok_iff.2 (hhistory earlier v later hsplit)
    · rw [hout, ← hvisits]
      exact Visit.sublist_heading visits
  · intro σ _ m now target store e he
    rcases m.migrateTo_of_store now target store with ⟨problem, s, heq⟩ | ⟨s, log, henter, hload, heq⟩
    · rw [heq] at he
      cases he
    · rw [heq] at he
      rw [henter]
      exact ⟨log, hload, Migrator.pending_of_replay he⟩

def topicsDropped : EventStep := EventScript.toStep { drop := ["topic"] } 2

/-- A topic, and in a later position another one and a group. -/
def topicsAndGroup : List Position :=
  [⟨1, 1, none, [.create ⟨"topic", 1⟩ ∅]⟩,
    ⟨5, 2, none, [.create ⟨"topic", 2⟩ ∅, .create ⟨"group", 1⟩ ∅]⟩]

theorem steps_see_the_migrated_past_of_topicsDropped :
    ∃ (out : List Position) (visits : List Visit),
      (topicsDropped.run ⟨∅⟩ topicsAndGroup).1 = .ok out ∧
      out.map Visit.heading = [(5, 2, none)] ∧ visits.map (·.position) = topicsAndGroup ∧
      topicsDropped.callsOf ⟨∅⟩ topicsAndGroup = visits.flatMap Visit.calls ∧
      out = visits.filterMap Visit.result? := by
  obtain ⟨out, hrun⟩ := exists_eq_ok (x := (topicsDropped.run ⟨∅⟩ topicsAndGroup).1)
    (by decide +kernel)
  have hheadings : ((topicsDropped.run ⟨∅⟩ topicsAndGroup).1.toOption.map fun out =>
      out.map Visit.heading) = some [(5, 2, none)] := by decide +kernel
  rw [hrun] at hheadings
  obtain ⟨-, visits, hvisits, -, hcalls, -, hout, -⟩ :=
    steps_see_the_migrated_past.1 topicsDropped ⟨∅⟩ topicsAndGroup out hrun
  exact ⟨out, visits, hrun, Option.some.inj hheadings, hvisits, hcalls, hout⟩

end MeetingLedger.Migration
