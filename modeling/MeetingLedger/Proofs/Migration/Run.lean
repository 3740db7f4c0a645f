import MeetingLedger.Migration.Run
import MeetingLedger.Proofs.Container.Except
import MeetingLedger.Proofs.Ledger.ModelView

/-!
# Successful runs of a step

A run of an event step leads from the history of the migrated positions so far to the one after all
of them, and the positions that it returns replay to just that history.
-/

namespace MeetingLedger.Migration

theorem exists_eq_ok {ε α : Type} {x : Except ε α} (h : x.toOption.isSome = true) :
    ∃ a, x = .ok a := by
  cases x with
  | error e => cases h
  | ok a => exact ⟨a, rfl⟩

namespace Outcome

variable {σ α β : Type}

theorem andThen_eq_done_iff {o : Outcome σ α} {next : α → σ → Outcome σ β} {b : β} {t : σ} :
    o.andThen next = done b t ↔ ∃ a s, o = done a s ∧ next a s = done b t := by
  rcases o with ⟨_ | a, s⟩
  · simp [andThen, done]
  · constructor
    · intro h
      exact ⟨a, s, rfl, h⟩
    · rintro ⟨a', s', ho, h⟩
      cases ho
      exact h

@[simp] theorem done_eq_done_iff {a b : α} {s t : σ} : done a s = done b t ↔ a = b ∧ s = t := by
  simp [done]

end Outcome

namespace EventStep

/-- The run of a step over positions from a history and a state of the step to others, with the
positions that it returns. -/
inductive Migrates (step : EventStep) : History → step.State → List Position →
    History → step.State → List Position → Prop
  | nil (h : History) (s : step.State) : Migrates step h s [] h s []
  | cons {h h₁ h₂ : History} {s s₁ s₂ : step.State} {p : Position} {ps out : List Position}
      {events : List Event} (position : step.migratePosition h p s = .done events s₁)
      (applied : h.applyAll events = ⟨h₁, none⟩) (rest : Migrates step h₁ s₁ ps h₂ s₂ out) :
      Migrates step h s (p :: ps) h₂ s₂
        (if events.isEmpty then out else { p with events } :: out)

variable {step : EventStep}

theorem migrateEvents_cons_eq_done_iff {h : History} {e : Event} {es events : List Event}
    {s t : step.State} : step.migrateEvents h (e :: es) s = .done events t ↔
      ∃ r s₁ rest, step.migrateEvent e h s = .done r s₁ ∧
        step.migrateEvents h es s₁ = .done rest t ∧ events = r.getD [e] ++ rest := by
  rw [migrateEvents, Outcome.andThen_eq_done_iff]
  constructor
  · rintro ⟨r, s₁, hfirst, hnext⟩
    obtain ⟨rest, s₂, hrest, hdone⟩ := Outcome.andThen_eq_done_iff.1 hnext
    obtain ⟨rfl, rfl⟩ := Outcome.done_eq_done_iff.1 hdone
    exact ⟨r, s₁, rest, hfirst, hrest, rfl⟩
  · rintro ⟨r, s₁, rest, hfirst, hrest, rfl⟩
    exact ⟨r, s₁, hfirst, Outcome.andThen_eq_done_iff.2 ⟨rest, t, hrest, rfl⟩⟩

theorem migratePosition_eq_done_iff {h : History} {p : Position} {events : List Event}
    {s t : step.State} : step.migratePosition h p s = .done events t ↔
      ∃ front s₁ more, step.migrateEvents h p.events (step.openPosition h s) = .done front s₁ ∧
        step.additionalEvents h s₁ = .done more t ∧ events = front ++ more := by
  rw [migratePosition, Outcome.andThen_eq_done_iff]
  constructor
  · rintro ⟨front, s₁, hfront, hnext⟩
    obtain ⟨more, s₂, hmore, hdone⟩ := Outcome.andThen_eq_done_iff.1 hnext
    obtain ⟨rfl, rfl⟩ := Outcome.done_eq_done_iff.1 hdone
    exact ⟨front, s₁, more, hfront, hmore, rfl⟩
  · rintro ⟨front, s₁, more, hfront, hmore, rfl⟩
    exact ⟨front, s₁, hfront, Outcome.andThen_eq_done_iff.2 ⟨more, t, hmore, rfl⟩⟩

theorem migratePositions_cons_eq_done_iff {h : History} {p : Position} {ps out : List Position}
    {s t : step.State} : step.migratePositions h (p :: ps) s = .done out t ↔
      ∃ events s₁ h₁ rest, step.migratePosition h p s = .done events s₁ ∧
        h.applyAll events = ⟨h₁, none⟩ ∧ step.migratePositions h₁ ps s₁ = .done rest t ∧
        out = if events.isEmpty then rest else { p with events } :: rest := by
  rw [migratePositions, Outcome.andThen_eq_done_iff]
  constructor
  · rintro ⟨events, s₁, hposition, hnext⟩
    cases happly : h.applyAll events with
    | mk h₁ refusal =>
      cases refusal with
      | some e => simp [happly, Outcome.done] at hnext
      | none =>
        rw [happly] at hnext
        obtain ⟨rest, s₂, hrest, hdone⟩ := Outcome.andThen_eq_done_iff.1 hnext
        obtain ⟨rfl, rfl⟩ := Outcome.done_eq_done_iff.1 hdone
        exact ⟨events, s₁, h₁, rest, hposition, happly, hrest, rfl⟩
  · rintro ⟨events, s₁, h₁, rest, hposition, happly, hrest, rfl⟩
    refine ⟨events, s₁, hposition, ?_⟩
    rw [happly]
    exact Outcome.andThen_eq_done_iff.2 ⟨rest, t, hrest, rfl⟩

theorem migrates_of_migratePositions {h : History} {ps out : List Position}
    {s t : step.State} (hrun : step.migratePositions h ps s = .done out t) :
    ∃ h', Migrates step h s ps h' t out := by
  induction ps generalizing h s out with
  | nil =>
    obtain ⟨rfl, rfl⟩ := Outcome.done_eq_done_iff.1 hrun
    exact ⟨h, .nil h s⟩
  | cons p ps ih =>
    obtain ⟨events, s₁, h₁, rest, hposition, happly, hrest, rfl⟩ :=
      migratePositions_cons_eq_done_iff.1 hrun
    obtain ⟨h₂, hmigrates⟩ := ih hrest
    exact ⟨h₂, .cons hposition happly hmigrates⟩

/-- The positions that a run returns replay to the history in which it ends. -/
theorem Migrates.replays {h h' : History} {s t : step.State} {ps out : List Position}
    (hrun : Migrates step h s ps h' t out) :
    h.applyAll (out.flatMap (·.events)) = ⟨h', none⟩ := by
  induction hrun with
  | nil h s => rfl
  | @cons h h₁ h₂ s s₁ s₂ p ps out events position applied rest ih =>
    by_cases hempty : events.isEmpty = true
    · rw [List.isEmpty_iff.1 hempty] at applied
      cases applied
      simpa [hempty] using ih
    · rw [if_neg hempty, List.flatMap_cons]
      exact History.applyAll_append_eq_iff.2 ⟨h₁, applied, ih⟩

end EventStep

/-- The replay of positions, one position after the other. -/
theorem replay_eq_ok_iff {ps : List Position} {h : History} :
    History.replay ps = .ok h ↔
      History.empty.applyAll (ps.flatMap (·.events)) = ⟨h, none⟩ := by
  rw [History.replay, Attempt.toExcept]
  cases happly : History.empty.applyAll (ps.flatMap (·.events)) with
  | mk h' refusal => cases refusal <;> simp

theorem EventStep.run_eq_ok_iff {step : EventStep} {r : Schema.Registry} {ps out : List Position} :
    (step.run r ps).1 = .ok out ↔
      ∃ t, step.migratePositions .empty ps (step.prepare r step.state) = .done out t := by
  rw [EventStep.run]
  rcases step.migratePositions .empty ps (step.prepare r step.state) with ⟨result, t⟩
  constructor
  · rintro rfl
    exact ⟨t, rfl⟩
  · rintro ⟨t', heq⟩
    cases heq
    rfl

/-- A run that succeeds is a run in the sense above, and what it returns replays. -/
theorem EventStep.migrates_of_run {step : EventStep} {r : Schema.Registry}
    {ps out : List Position} (hrun : (step.run r ps).1 = .ok out) :
    ∃ h' t, Migrates step .empty (step.prepare r step.state) ps h' t out ∧
      History.replay out = .ok h' := by
  obtain ⟨t, hdone⟩ := run_eq_ok_iff.1 hrun
  obtain ⟨h', hmigrates⟩ := migrates_of_migratePositions hdone
  exact ⟨h', t, hmigrates, replay_eq_ok_iff.2 hmigrates.replays⟩

section ModelSteps

variable {step : ModelStep} {now : Int64} {ps : List Position}

theorem ModelStep.run_of_replay_error {e : HistoryError} (hreplay : History.replay ps = .error e) :
    (step.run now ps).1 = .error (.history e) := by
  rw [ModelStep.run, ModelStep.migratePositions, hreplay]

/-- What a model step makes of positions that replay: the positions themselves, if it asks for nothing,
and else one more position with its changes, if they apply and a number is left for it. -/
theorem ModelStep.run_of_replay {h : History} (hreplay : History.replay ps = .ok h) :
    (step.run now ps).1 = (step.migrateModels h step.state).result.bind fun requests =>
      if requests = [] then .ok ps
      else
        match (h.applyAll (requests.map ModelChange.toEvent)).refusal with
        | some e => .error (.history e)
        | none =>
          if hasNextNumber ps then .ok (appendPosition ps now (requests.map ModelChange.toEvent))
          else .error .overflow := by
  simp only [ModelStep.run, migratePositions, hreplay]
  rcases step.migrateModels h step.state with ⟨e | requests, s⟩
  · rfl
  · cases requests with
    | nil => rfl
    | cons request requests =>
      simp only [Outcome.andThen, Except.bind]
      cases (h.applyAll ((request :: requests).map ModelChange.toEvent)).refusal with
      | some e => rfl
      | none => cases hasNextNumber ps <;> rfl

theorem ModelStep.cases_of_run {out : List Position} (hrun : (step.run now ps).1 = .ok out) :
    ∃ h requests s, History.replay ps = .ok h ∧ step.migrateModels h step.state = .done requests s ∧
      (out = ps ∨ ∃ h', requests ≠ [] ∧ h.applyAll (requests.map ModelChange.toEvent) = ⟨h', none⟩ ∧
        hasNextNumber ps = true ∧
        out = appendPosition ps now (requests.map ModelChange.toEvent)) := by
  cases hreplay : History.replay ps with
  | error e => cases (run_of_replay_error hreplay).symm.trans hrun
  | ok h =>
    rw [run_of_replay hreplay] at hrun
    cases hmigrate : step.migrateModels h step.state with
    | mk result s =>
      rw [hmigrate] at hrun
      obtain ⟨requests, rfl, hout⟩ := bind_eq_ok_iff.1 hrun
      refine ⟨h, requests, s, rfl, hmigrate, ?_⟩
      split at hout
      · exact .inl (Except.ok.inj hout).symm
      · rename_i hsome
        cases happly : h.applyAll (requests.map ModelChange.toEvent) with
        | mk h' refusal =>
          rw [happly] at hout
          cases refusal with
          | some e => cases hout
          | none =>
            dsimp only at hout
            split at hout
            · rename_i hnumber
              exact .inr ⟨h', hsome, rfl, hnumber, (Except.ok.inj hout).symm⟩
            · cases hout

end ModelSteps

end MeetingLedger.Migration
