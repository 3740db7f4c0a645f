import MeetingLedger.Consistency.Checker
import MeetingLedger.Migration.Chain
import MeetingLedger.Migration.Run
import MeetingLedger.Schema.Standard
import MeetingLedger.Storage.Store

/-!
# Migrations of stored logs

All steps run on a copy of the log, which replaces the stored one only after the last of them
succeeded and the result was checked.
-/

namespace MeetingLedger.Migration

open Schema Storage Consistency

/-- Why a log was not migrated or exported. -/
inductive MigrationError where
  | targetBelowCurrent (current target : UInt64)
  | targetBeyondLatest (target latest : UInt64)
  | unknownIndex (current latest : UInt64)
  | step (target : UInt64) (name : String) (e : StepError)
  | replay (e : HistoryError)
  | verification (found : List Finding)
  | store (e : StoreError)

namespace MigrationError

def message : MigrationError → String
  | targetBelowCurrent current target =>
    s!"cannot migrate to {target.toNat}: dataset is already at {current.toNat}"
  | targetBeyondLatest target latest =>
    s!"cannot migrate to {target.toNat}: latest known migration index is {latest.toNat}"
  | unknownIndex current latest =>
    s!"dataset migration index {current.toNat} is unknown to this backend " ++
      s!"(latest {latest.toNat})"
  | step target name e => s!"migration {name} (index {target.toNat}) failed: {e.message}"
  | replay e => "event log cannot be replayed: " ++ e.message
  | verification found => "migrated data is not consistent:\n\t" ++ report found
  | store e => e.message

def cause? : MigrationError → Option String
  | step _ _ e => some e.message
  | replay e => some e.message
  | verification found => some (report found)
  | store e => e.cause?
  | _ => none

/-- Whether the program stops instead of reporting the failure. -/
def isCrash : MigrationError → Bool
  | step _ _ .overflow => true
  | _ => false

def code : MigrationError → ErrorCode
  | targetBelowCurrent .. | targetBeyondLatest .. | unknownIndex .. => .migrationIndexMismatch
  | step .. => .migrationStepFailed
  | replay _ => .eventReplayFailed
  | verification _ => .migrationVerificationFailed
  | store e => e.code

end MigrationError

structure Report where
  source : UInt64
  target : UInt64
  /-- The names of the steps in order. -/
  applied : List String
  /-- The number of positions of the result. -/
  positions : Nat
  /-- Whether the result was checked. -/
  verified : Bool
deriving DecidableEq

def Report.isNoop (r : Report) : Bool := r.applied.isEmpty

structure Progress where
  positions : List Position
  applied : List String

/-- Runs the steps that lead beyond an index and not beyond a target. All steps are given back in
the states that they reached. -/
def runPending (r : Registry) (now : Int64) (current target : UInt64) :
    List Step → Progress → Except MigrationError Progress × List Step
  | [], p => (.ok p, [])
  | s :: rest, p =>
    if current < s.target ∧ s.target ≤ target then
      match s.run r now p.positions with
      | (.error e, s') => (.error (.step s.target s.name e), s' :: rest)
      | (.ok positions, s') =>
        let (result, rest) :=
          runPending r now current target rest ⟨positions, p.applied ++ [s.name]⟩
        (result, s' :: rest)
    else
      let (result, rest) := runPending r now current target rest p
      (result, s :: rest)

theorem target_run (r : Registry) (now : Int64) (positions : List Position) (s : Step) :
    (s.run r now positions).2.target = s.target := by
  cases s <;> rfl

theorem targets_runPending (r : Registry) (now : Int64) (current target : UInt64)
    (steps : List Step) (p : Progress) :
    (runPending r now current target steps p).2.map Step.target = steps.map Step.target := by
  induction steps generalizing p with
  | nil => rfl
  | cons s rest ih =>
    have kept := target_run r now p.positions s
    rw [runPending]
    split
    · split
      · simp_all
      · simp_all
    · simp_all

/-- A registry and a chain of steps in the states that earlier migrations left. -/
structure Migrator where
  registry : Registry
  chain : Chain

/-- The result of a migration, the store after it and the migrator after it. -/
structure Migrated (σ : Type) where
  result : Except MigrationError Report
  store : σ
  migrator : Migrator

def verify (r : Registry) (index : UInt64) (positions : List Position) :
    Except MigrationError Unit :=
  match History.replay positions with
  | .error e => .error (.replay e)
  | .ok h =>
    let checker : Checker := ⟨r, { mode := .all }, index⟩
    let found := (checker.run (h.toSnapshot index)).2
    if found.isEmpty then .ok () else .error (.verification found)

namespace Migrator

variable {σ : Type} [EventStore σ] (m : Migrator)

def latest : UInt64 := m.chain.latest

/-- Why a target cannot be reached from an index. -/
def targetProblem? (current target : UInt64) : Option MigrationError :=
  if m.latest < current then some (.unknownIndex current m.latest)
  else if target < current then some (.targetBelowCurrent current target)
  else if m.latest < target then some (.targetBeyondLatest target m.latest)
  else none

def advance (now : Int64) (target : UInt64) (log : EventLog) :
    Except MigrationError Progress × Migrator :=
  let o := runPending m.registry now log.migrationIndex target m.chain.steps ⟨log.positions, []⟩
  (o.1, ⟨m.registry, o.2, by simpa [o, targets_runPending] using m.chain.gapless⟩)

/-- Checks positions that were migrated to a target, if it is the latest index. -/
def verifyAt (target : UInt64) (positions : List Position) : Except MigrationError Unit :=
  if target = m.latest then verify m.registry m.latest positions else .ok ()

def migrateLog (now : Int64) (target : UInt64) (log : EventLog) (store : σ) : Migrated σ :=
  match m.targetProblem? log.migrationIndex target with
  | some e => ⟨.error e, store, m⟩
  | none =>
    match m.advance now target log with
    | (.error e, after) => ⟨.error e, store, after⟩
    | (.ok p, after) =>
      match m.verifyAt target p.positions with
      | .error e => ⟨.error e, store, after⟩
      | .ok () =>
        let report : Report :=
          ⟨log.migrationIndex, target, p.applied, p.positions.length, target = m.latest⟩
        if p.applied.isEmpty then ⟨.ok report, store, after⟩
        else
          match EventStore.replace ⟨target, p.positions⟩ store with
          | (.error e, store) => ⟨.error (.store e), store, after⟩
          | (.ok (), store) => ⟨.ok report, store, after⟩

/-- Migrates the log of a store to a target. Of the log only the last write is seen from outside,
and it happens only if nothing failed and a step was applied. -/
def migrateTo (now : Int64) (target : UInt64) (store : σ) : Migrated σ :=
  match EventStore.enter .write store with
  | (.error e, store) => ⟨.error (.store e), store, m⟩
  | (.ok (), store) =>
    match EventStore.load store with
    | .error e => ⟨.error (.store e), store, m⟩
    | .ok log => m.migrateLog now target log store

def finalize (now : Int64) (store : σ) : Migrated σ := m.migrateTo now m.latest store

/-- The snapshot that a log leaves, checked under some options. -/
def exportLog (config : Config) (log : EventLog) : Except MigrationError Snapshot :=
  match History.replay log.positions with
  | .error e => .error (.replay e)
  | .ok h =>
    let checker : Checker := ⟨m.registry, config, m.latest⟩
    let (s, found) := checker.run (h.toSnapshot log.migrationIndex)
    if found.isEmpty then .ok s else .error (.verification found)

def exportSnapshot (config : Config) (store : σ) : Except MigrationError Snapshot × σ :=
  match EventStore.enter .read store with
  | (.error e, store) => (.error (.store e), store)
  | (.ok (), store) =>
    match EventStore.load store with
    | .error e => (.error (.store e), store)
    | .ok log => (m.exportLog config log, store)

end Migrator

end MeetingLedger.Migration
