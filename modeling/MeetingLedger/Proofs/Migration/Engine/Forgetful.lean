import Mathlib.Data.List.Forall2
import MeetingLedger.Proofs.Migration.Engine.Stepwise

/-!
# A migrator used before

Steps keep a state from one event to the next, and a migrator keeps its steps from one store to the
next, also after a run that broke off within a position. Every step of the standard chain overwrites
the state that it is given before it reads it, so a migrator that worked on other stores does the
same as one that was just built.
-/

namespace MeetingLedger.Migration

open Schema Storage

inductive Step.InState : Step → Step → Prop
  | event (s : EventStep) (state : s.State) : InState (.event s) (.event { s with state })
  | model (s : ModelStep) (state : s.State) : InState (.model s) (.model { s with state })

namespace Step.InState

variable {s s' s'' : Step}

theorem refl : (s : Step) → s.InState s
  | .event s => .event s s.state
  | .model s => .model s s.state

theorem trans (h : s.InState s') (h' : s'.InState s'') : s.InState s'' := by
  cases h with
  | event s state =>
    cases h' with
    | event _ state' => exact .event s state'
  | model s state =>
    cases h' with
    | model _ state' => exact .model s state'

theorem target_eq (h : s.InState s') : s'.target = s.target := by
  cases h <;> rfl

theorem name_eq (h : s.InState s') : s'.name = s.name := by
  cases h <;> rfl

end Step.InState

/-- A run changes nothing of a step but its state. -/
theorem Step.inState_run (r : Registry) (now : Int64) (positions : List Position) (s : Step) :
    s.InState (s.run r now positions).2 := by
  cases s with
  | event s => exact .event s _
  | model s => exact .model s _

/-- Whether a step comes to the same positions whatever state it starts in. -/
def Step.IsForgetful (s : Step) : Prop :=
  ∀ s', s.InState s' → ∀ r now positions, (s'.run r now positions).1 = (s.run r now positions).1

namespace EventStep

variable (step : EventStep) (state : step.State)

/-- What a step does with events depends on the state that it is given with them, not on the one
that it keeps. -/
theorem migrateEvents_inState (h : History) (es : List Event) (s : step.State) :
    { step with state }.migrateEvents h es s = step.migrateEvents h es s := by
  induction es generalizing s with
  | nil => rfl
  | cons e es ih =>
    rw [migrateEvents, migrateEvents]
    exact congrArg (Outcome.andThen _) (funext fun _ => funext fun s => by rw [ih s])

theorem migratePosition_inState (h : History) (p : Position) (s : step.State) :
    { step with state }.migratePosition h p s = step.migratePosition h p s := by
  rw [migratePosition, migratePosition]
  exact congrArg (Outcome.andThen · _) (step.migrateEvents_inState state h p.events _)

theorem migratePositions_inState (h : History) (ps : List Position) (s : step.State) :
    { step with state }.migratePositions h ps s = step.migratePositions h ps s := by
  induction ps generalizing h s with
  | nil => rfl
  | cons p ps ih =>
    rw [migratePositions, migratePositions, migratePosition_inState]
    simp only [ih]

theorem run_inState (r : Registry) (now : Int64) (positions : List Position) :
    ((Step.event { step with state }).run r now positions).1 =
      (step.migratePositions .empty positions (step.prepare r state)).result := by
  rw [← migratePositions_inState step state]
  rfl

variable {step}

/-- A step that starts every run afresh is forgetful. -/
theorem isForgetful_of_prepare (h : ∀ r s s', step.prepare r s = step.prepare r s') :
    (Step.event step).IsForgetful := by
  intro s' hs' r now positions
  cases hs' with
  | event _ state =>
    rw [run_inState, h r state step.state]
    rfl

/-- A step that starts every position afresh is forgetful: without a position there is nothing that
it could use its state for. -/
theorem isForgetful_of_openPosition
    (h : ∀ past s s', step.openPosition past s = step.openPosition past s') :
    (Step.event step).IsForgetful := by
  intro s' hs' r now positions
  cases hs' with
  | event _ state =>
    rw [run_inState]
    cases positions with
    | nil => rfl
    | cons p ps =>
      rw [migratePositions, migratePosition, h .empty (step.prepare r state)
        (step.prepare r step.state), ← migratePosition, ← migratePositions]
      rfl

end EventStep

theorem ModelStep.isForgetful_of_subsingleton {step : ModelStep}
    (h : ∀ s s' : step.State, s = s') : (Step.model step).IsForgetful := by
  intro s' hs' r now positions
  cases hs' with
  | model _ state => rw [h state step.state]

/-- No step of the standard chain makes use of the state in which it is found. -/
theorem Chain.isForgetful_of_mem_standard {s : Step} (hs : s ∈ standard.steps) :
    s.IsForgetful := by
  change s ∈ standardSteps at hs
  simp only [standardSteps, List.mem_cons, List.not_mem_nil, or_false] at hs
  rcases hs with rfl | rfl | rfl
  · exact EventStep.isForgetful_of_openPosition fun _ _ _ => rfl
  · exact EventStep.isForgetful_of_prepare fun _ _ _ => rfl
  · exact ModelStep.isForgetful_of_subsingleton fun _ _ => rfl

section States

variable {steps steps' steps'' : List Step}

theorem inState_trans (h : List.Forall₂ Step.InState steps steps')
    (h' : List.Forall₂ Step.InState steps' steps'') : List.Forall₂ Step.InState steps steps'' := by
  induction h generalizing steps'' with
  | nil => exact h'
  | cons hs _ ih =>
    cases h' with
    | cons hs' h' => exact .cons (hs.trans hs') (ih h')

theorem inState_runPending (r : Registry) (now : Int64) (current target : UInt64)
    (steps : List Step) (p : Progress) :
    List.Forall₂ Step.InState steps (runPending r now current target steps p).2 := by
  induction steps generalizing p with
  | nil => exact .nil
  | cons s steps ih =>
    rw [runPending]
    split
    · have hs := s.inState_run r now p.positions
      generalize s.run r now p.positions = ran at hs ⊢
      rcases ran with ⟨_ | positions, s'⟩
      · exact .cons hs (List.forall₂_same.2 fun s _ => .refl s)
      · exact .cons hs (ih _)
    · exact .cons (.refl s) (ih p)

theorem inState_filter (h : List.Forall₂ Step.InState steps steps') (current target : UInt64) :
    List.Forall₂ Step.InState (steps.filter (·.isPending current target))
      (steps'.filter (·.isPending current target)) := by
  apply List.rel_filter _ h
  intro s s' hs
  change s.isPending current target = true ↔ s'.isPending current target = true
  rw [Step.isPending, Step.isPending, hs.target_eq]

theorem map_name_of_inState (h : List.Forall₂ Step.InState steps steps') :
    steps'.map Step.name = steps.map Step.name := by
  induction h with
  | nil => rfl
  | cons hs _ ih => rw [List.map_cons, List.map_cons, hs.name_eq, ih]

theorem map_target_of_inState (h : List.Forall₂ Step.InState steps steps') :
    steps'.map Step.target = steps.map Step.target := by
  induction h with
  | nil => rfl
  | cons hs _ ih => rw [List.map_cons, List.map_cons, hs.target_eq, ih]

theorem runInOrder_of_inState (h : List.Forall₂ Step.InState steps steps')
    (hsteps : ∀ s ∈ steps, s.IsForgetful) (r : Registry) (now : Int64)
    (positions : List Position) :
    runInOrder r now steps' positions = runInOrder r now steps positions := by
  induction h generalizing positions with
  | nil => rfl
  | @cons s s' steps steps' hs _ ih =>
    have hrun := hsteps s List.mem_cons_self s' hs r now positions
    rw [runInOrder, runInOrder, hrun, hs.target_eq, hs.name_eq]
    cases (s.run r now positions).1 with
    | error e => rfl
    | ok positions => exact ih (fun s hs => hsteps s (List.mem_cons_of_mem _ hs)) positions

end States

section Seen

variable {σ : Type}

/-- What of a migration is seen from outside: its result and the store. -/
def Migrated.seen (o : Migrated σ) : Except MigrationError Report × σ := (o.result, o.store)

/-- What is seen of a migration that came to its write. -/
def seenOfWrite (report : Report) :
    Except StoreError Unit × σ → Except MigrationError Report × σ
  | (.error e, s) => (.error (.store e), s)
  | (.ok (), s) => (.ok report, s)

/-- What is seen of a migration at one time and at another: the same, or what came of writing two
logs that differ at most in the stamp of one position that a model step appended. -/
inductive SameButStamp [EventStore σ] (now now' : Int64) :
    Except MigrationError Report × σ → Except MigrationError Report × σ → Prop
  | same (seen : Except MigrationError Report × σ) : SameButStamp now now' seen seen
  | written (report : Report) (index : UInt64) {positions : Int64 → List Position}
      (stamped : Stamped positions) (s : σ) :
      SameButStamp now now' (seenOfWrite report (EventStore.replace ⟨index, positions now⟩ s))
        (seenOfWrite report (EventStore.replace ⟨index, positions now'⟩ s))

theorem Stamped.length {positions : Int64 → List Position} (h : Stamped positions)
    (now now' : Int64) : (positions now).length = (positions now').length := by
  cases h with
  | untouched positions => rfl
  | appended positions events => simp [appendPosition]

/-- In memory the results are the same, and the logs are the same up to a stamp. -/
theorem SameButStamp.memory {now now' : Int64}
    {seen seen' : Except MigrationError Report × MemoryStore}
    (h : SameButStamp now now' seen seen') :
    seen.1 = seen'.1 ∧ seen.2.writes = seen'.2.writes ∧
      ∃ index positions, Stamped positions ∧ seen.2.log = ⟨index, positions now⟩ ∧
        seen'.2.log = ⟨index, positions now'⟩ := by
  cases h with
  | same =>
    exact ⟨rfl, rfl, seen.2.log.migrationIndex, _, .untouched seen.2.log.positions, rfl, rfl⟩
  | @written report index positions stamped s =>
    have hproblem := stamped.problem? index now now'
    simp only [EventStore.replace, MemoryStore.replace, hproblem]
    cases (⟨index, positions now'⟩ : EventLog).problem? with
    | some problem =>
      exact ⟨rfl, rfl, s.log.migrationIndex, _, .untouched s.log.positions, rfl, rfl⟩
    | none => exact ⟨rfl, rfl, index, positions, stamped, rfl, rfl⟩

end Seen

namespace Migrator

variable {σ : Type} [EventStore σ]

/-- What is seen of the migration of a log that was read from a store. -/
theorem seen_migrateLog (m : Migrator) (now : Int64) (target : UInt64) (log : EventLog) (s : σ) :
    (m.migrateLog now target log s).seen =
      match m.targetProblem? log.migrationIndex target with
      | some e => (.error e, s)
      | none =>
        match runInOrder m.registry now (m.chain.pending log.migrationIndex target)
          log.positions with
        | .error e => (.error e, s)
        | .ok positions =>
          match m.verifyAt target positions with
          | .error e => (.error e, s)
          | .ok () =>
            let applied := (m.chain.pending log.migrationIndex target).map Step.name
            let report : Report :=
              ⟨log.migrationIndex, target, applied, positions.length, target = m.latest⟩
            if applied.isEmpty then (.ok report, s)
            else seenOfWrite report (EventStore.replace ⟨target, positions⟩ s) := by
  have hends := m.logEnds now target log s
  rw [Migrated.seen]
  generalize (m.migrateLog now target log s).result = result at hends ⊢
  generalize (m.migrateLog now target log s).store = s' at hends ⊢
  cases hends with
  | unreachable h => simp [h]
  | failed reachable h => simp [reachable, h]
  | inconsistent reachable run h => simp [reachable, run, h]
  | untouched reachable run verified h =>
    rw [h] at run
    simp [reachable, run, verified, h]
  | unwritten reachable run verified some h =>
    simp [reachable, run, verified, some, h, seenOfWrite]
  | written reachable run verified some h =>
    simp [reachable, run, verified, some, h, seenOfWrite]

section Use

structure InState (m m' : Migrator) : Prop where
  registry_eq : m'.registry = m.registry
  steps : List.Forall₂ Step.InState m.chain.steps m'.chain.steps

variable {m m' m'' : Migrator}

theorem InState.refl (m : Migrator) : m.InState m :=
  ⟨rfl, List.forall₂_same.2 fun s _ => .refl s⟩

theorem InState.trans (h : m.InState m') (h' : m'.InState m'') : m.InState m'' :=
  ⟨h'.registry_eq.trans h.registry_eq, inState_trans h.steps h'.steps⟩

theorem inState_migrateTo (m : Migrator) (now : Int64) (target : UInt64) (s : σ) :
    m.InState (m.migrateTo now target s).migrator := by
  rcases m.migrateTo_of_store now target s with ⟨e, s', heq⟩ | ⟨s', log, -, -, heq⟩
  · rw [heq]
    exact .refl m
  · rw [heq]
    rcases m.migrator_migrateLog now target log s' with h | h
    · rw [h]
      exact .refl m
    · rw [h]
      exact ⟨rfl, inState_runPending _ _ _ _ _ _⟩

theorem InState.latest_eq (h : m.InState m') : m'.latest = m.latest := by
  rw [latest, latest, Chain.latest, Chain.latest, map_target_of_inState h.steps]

theorem InState.seen_migrateLog (h : m.InState m') (hsteps : ∀ s ∈ m.chain.steps, s.IsForgetful)
    (now : Int64) (target : UInt64) (log : EventLog) (s : σ) :
    (m'.migrateLog now target log s).seen = (m.migrateLog now target log s).seen := by
  have hpending := inState_filter h.steps log.migrationIndex target
  have hnames : (m'.chain.pending log.migrationIndex target).map Step.name =
      (m.chain.pending log.migrationIndex target).map Step.name := map_name_of_inState hpending
  have hrun : runInOrder m'.registry now (m'.chain.pending log.migrationIndex target)
      log.positions = runInOrder m.registry now (m.chain.pending log.migrationIndex target)
        log.positions := by
    rw [h.registry_eq]
    exact runInOrder_of_inState hpending (fun s hs => hsteps s (List.mem_filter.1 hs).1) _ _ _
  have hreachable : m'.targetProblem? log.migrationIndex target =
      m.targetProblem? log.migrationIndex target := by
    rw [targetProblem?, targetProblem?, h.latest_eq]
  have hverify (positions : List Position) :
      m'.verifyAt target positions = m.verifyAt target positions := by
    rw [verifyAt, verifyAt, h.latest_eq, h.registry_eq]
  simp only [Migrator.seen_migrateLog, hnames, hrun, hreachable, hverify, h.latest_eq]

/-- A migrator whose steps are forgetful does with a store what it would do in any other state. -/
theorem InState.seen_migrateTo (h : m.InState m') (hsteps : ∀ s ∈ m.chain.steps, s.IsForgetful)
    (now : Int64) (target : UInt64) (s : σ) :
    (m'.migrateTo now target s).seen = (m.migrateTo now target s).seen := by
  rw [migrateTo, migrateTo]
  cases EventStore.enter .write s with
  | mk entered s =>
    cases entered with
    | error e => rfl
    | ok _ =>
      dsimp only
      cases EventStore.load s with
      | error e => rfl
      | ok log => exact h.seen_migrateLog hsteps now target log s

end Use

section Standard

/-- A migration along the standard chain looks at the clock only for a stamp. -/
theorem seen_migrateLog_standard (r : Registry) (now now' : Int64) (target : UInt64)
    (log : EventLog) (s : σ) :
    SameButStamp now now' ((⟨r, .standard⟩ : Migrator).migrateLog now target log s).seen
      ((⟨r, .standard⟩ : Migrator).migrateLog now' target log s).seen := by
  obtain ⟨front, last, hpending, hfront, hlast⟩ :=
    Chain.pending_standard log.migrationIndex target
  rw [seen_migrateLog, seen_migrateLog]
  cases (⟨r, .standard⟩ : Migrator).targetProblem? log.migrationIndex target with
  | some e => exact .same _
  | none =>
    dsimp only
    rw [hpending]
    rcases runInOrder_stamped r hfront hlast log.positions with ⟨e, he⟩ | ⟨out, hout, hok⟩
    · rw [he, he]
      exact .same _
    · rw [hok, hok]
      dsimp only
      rw [hout.verifyAt _ target now now', hout.length now now']
      cases (⟨r, .standard⟩ : Migrator).verifyAt target (out now') with
      | error e => exact .same _
      | ok _ =>
        dsimp only
        split
        · exact .same _
        · exact .written _ target hout s

theorem seen_migrateTo_standard (r : Registry) (now now' : Int64) (target : UInt64) (s : σ) :
    SameButStamp now now' ((⟨r, .standard⟩ : Migrator).migrateTo now target s).seen
      ((⟨r, .standard⟩ : Migrator).migrateTo now' target s).seen := by
  rw [migrateTo, migrateTo]
  cases EventStore.enter .write s with
  | mk entered s =>
    cases entered with
    | error e => exact .same _
    | ok _ =>
      dsimp only
      cases EventStore.load s with
      | error e => exact .same _
      | ok log => exact seen_migrateLog_standard r now now' target log s

end Standard

section Jobs

structure Job where
  Store : Type
  [access : EventStore Store]
  store : Store
  now : Int64
  target : UInt64

def afterJob (m : Migrator) (j : Job) : Migrator :=
  let _ := j.access
  (m.migrateTo j.now j.target j.store).migrator

theorem inState_afterJobs (m : Migrator) (jobs : List Job) :
    m.InState (jobs.foldl afterJob m) := by
  induction jobs generalizing m with
  | nil => exact .refl m
  | cons j jobs ih =>
    let _ := j.access
    exact (m.inState_migrateTo j.now j.target j.store).trans (ih (m.afterJob j))

end Jobs

/-- A migrator carries nothing from one store to the next: after any migrations along the standard
chain, of stores of any kind and whether they succeeded or failed, it does with a store just what a
new one does at the same time, and up to a stamp what a new one does at any time. -/
theorem migrateTo_after_jobs (r : Registry) (jobs : List Job) (target : UInt64) (store : σ) :
    let fresh : Migrator := ⟨r, .standard⟩
    let used := jobs.foldl afterJob fresh
    (∀ now, (used.migrateTo now target store).result = (fresh.migrateTo now target store).result ∧
      (used.migrateTo now target store).store = (fresh.migrateTo now target store).store) ∧
    ∀ now now', SameButStamp now now' (used.migrateTo now target store).seen
      (fresh.migrateTo now' target store).seen := by
  intro fresh used
  have hseen (now : Int64) :
      (used.migrateTo now target store).seen = (fresh.migrateTo now target store).seen :=
    (fresh.inState_afterJobs jobs).seen_migrateTo
      (fun _ hs => Chain.isForgetful_of_mem_standard hs) now target store
  constructor
  · intro now
    exact Prod.mk.inj (hseen now)
  · intro now now'
    rw [hseen]
    exact seen_migrateTo_standard r now now' target store

end Migrator

end MeetingLedger.Migration
