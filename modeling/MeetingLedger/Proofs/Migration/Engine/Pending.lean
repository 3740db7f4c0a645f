import MeetingLedger.Migration.Migrator
import MeetingLedger.Proofs.Container.Except

/-!
# Migrations are all or nothing

A migration runs the pending steps of its chain in order, checks the result and writes it once. It
either gets through all of this, or it leaves the store as it was.
-/

namespace MeetingLedger.Migration

open Schema Storage

/-- Whether a step leads beyond an index and not beyond a target. -/
def Step.isPending (current target : UInt64) (s : Step) : Bool :=
  decide (current < s.target) && decide (s.target ≤ target)

def Chain.pending (c : Chain) (current target : UInt64) : List Step :=
  c.steps.filter (·.isPending current target)

/-- What steps make of positions, each at work on what the one before it made. -/
def runInOrder (r : Registry) (now : Int64) :
    List Step → List Position → Except MigrationError (List Position)
  | [], positions => .ok positions
  | s :: steps, positions =>
    match (s.run r now positions).1 with
    | .error e => .error (.step s.target s.name e)
    | .ok positions => runInOrder r now steps positions

section Steps

variable (r : Registry) (now : Int64) (current target : UInt64)

theorem runInOrder_append (front back : List Step) (positions : List Position) :
    runInOrder r now (front ++ back) positions =
      (runInOrder r now front positions).bind (runInOrder r now back) := by
  induction front generalizing positions with
  | nil => rfl
  | cons s front ih =>
    rw [List.cons_append, runInOrder, runInOrder]
    cases (s.run r now positions).1 with
    | error e => rfl
    | ok positions => exact ih positions

theorem runInOrder_cons_eq_ok_iff {s : Step} {steps : List Step} {positions out : List Position} :
    runInOrder r now (s :: steps) positions = .ok out ↔
      ∃ next, (s.run r now positions).1 = .ok next ∧ runInOrder r now steps next = .ok out := by
  rw [runInOrder]
  cases (s.run r now positions).1 <;> simp

/-- The progress of a migration is made by its pending steps alone. -/
theorem runPending_eq (steps : List Step) (p : Progress) :
    (runPending r now current target steps p).1 =
      (runInOrder r now (steps.filter (·.isPending current target)) p.positions).map fun positions =>
        ⟨positions, p.applied ++ (steps.filter (·.isPending current target)).map Step.name⟩ := by
  induction steps generalizing p with
  | nil => simp [runPending, runInOrder, Except.map]
  | cons s steps ih =>
    rw [runPending]
    by_cases hpending : current < s.target ∧ s.target ≤ target
    · have hkept : s.isPending current target = true := by simp [Step.isPending, hpending]
      rw [if_pos hpending, List.filter_cons_of_pos hkept, runInOrder]
      rcases s.run r now p.positions with ⟨_ | positions, s'⟩
      · rfl
      · simp [ih]
    · have hleft : ¬ s.isPending current target = true := by simpa [Step.isPending] using hpending
      rw [if_neg hpending, List.filter_cons_of_neg hleft]
      exact ih p

/-- A migration without pending steps leaves all steps in the states in which it found them. -/
theorem snd_runPending_of_none {steps : List Step}
    (h : steps.filter (·.isPending current target) = []) (p : Progress) :
    (runPending r now current target steps p).2 = steps := by
  induction steps generalizing p with
  | nil => rfl
  | cons s steps ih =>
    have hskip : ¬ (current < s.target ∧ s.target ≤ target) := by
      simpa [Step.isPending] using List.filter_eq_nil_iff.1 h s List.mem_cons_self
    have hrest : steps.filter (·.isPending current target) = [] :=
      List.filter_eq_nil_iff.2 fun s' hs' =>
        List.filter_eq_nil_iff.1 h s' (List.mem_cons_of_mem _ hs')
    rw [runPending, if_neg hskip]
    exact congrArg (s :: ·) (ih hrest p)

theorem filter_runPending {beyond : UInt64} (hbeyond : target ≤ beyond) (last : UInt64)
    (steps : List Step) (p : Progress) :
    (runPending r now current target steps p).2.filter (·.isPending beyond last) =
      steps.filter (·.isPending beyond last) := by
  induction steps generalizing p with
  | nil => rfl
  | cons s steps ih =>
    rw [runPending]
    by_cases hpending : current < s.target ∧ s.target ≤ target
    · rw [if_pos hpending]
      have hleft {s' : Step} (hs' : s'.target = s.target) : ¬ s'.isPending beyond last = true := by
        have hle := UInt64.le_trans hpending.2 hbeyond
        simp [Step.isPending, hs', UInt64.not_lt.2 hle]
      have hrun : (s.run r now p.positions).2.target = s.target := target_run r now p.positions s
      rw [List.filter_cons_of_neg (hleft rfl)]
      rcases hs : s.run r now p.positions with ⟨_ | positions, s'⟩
      · exact List.filter_cons_of_neg (hleft (by rw [← hrun, hs]))
      · exact (List.filter_cons_of_neg (hleft (by rw [← hrun, hs]))).trans (ih _)
    · rw [if_neg hpending]
      simp [List.filter_cons, ih]

end Steps

namespace Migrator

/-- A migration that nothing stands in the way of, with the positions in which it ends: the target
can be reached, no pending step fails, and the result passes the check and can be written. -/
structure Succeeds (m : Migrator) (now : Int64) (target : UInt64) (store : MemoryStore)
    (positions : List Position) : Prop where
  reachable : m.targetProblem? store.log.migrationIndex target = none
  run : runInOrder m.registry now (m.chain.pending store.log.migrationIndex target)
    store.log.positions = .ok positions
  verified : m.verifyAt target positions = .ok ()
  writable : m.chain.pending store.log.migrationIndex target ≠ [] →
    (⟨target, positions⟩ : EventLog).problem? = none

theorem targetProblem?_eq_none_iff {m : Migrator} {current target : UInt64} :
    m.targetProblem? current target = none ↔ current ≤ target ∧ target ≤ m.latest := by
  rw [targetProblem?]
  split
  · rename_i hunknown
    exact ⟨nofun, fun h => absurd (UInt64.le_trans h.1 h.2) (UInt64.not_le.2 hunknown)⟩
  · split
    · rename_i hbelow
      exact ⟨nofun, fun h => absurd h.1 (UInt64.not_le.2 hbelow)⟩
    · split
      · rename_i hbeyond
        exact ⟨nofun, fun h => absurd h.2 (UInt64.not_le.2 hbeyond)⟩
      · rename_i hbelow hbeyond
        exact ⟨fun _ => ⟨UInt64.not_lt.1 hbelow, UInt64.not_lt.1 hbeyond⟩, fun _ => rfl⟩

variable (m : Migrator) (now : Int64) (target : UInt64) (store : MemoryStore)

def reportOf (positions : List Position) : Report :=
  ⟨store.log.migrationIndex, target,
    (m.chain.pending store.log.migrationIndex target).map Step.name, positions.length,
    target = m.latest⟩

def storeOf (positions : List Position) : MemoryStore :=
  if m.chain.pending store.log.migrationIndex target = [] then store
  else ⟨⟨target, positions⟩, store.writes + 1⟩

theorem advance_eq (log : EventLog) :
    (m.advance now target log).1 =
      (runInOrder m.registry now (m.chain.pending log.migrationIndex target) log.positions).map
        fun positions =>
          ⟨positions, (m.chain.pending log.migrationIndex target).map Step.name⟩ :=
  runPending_eq m.registry now log.migrationIndex target m.chain.steps _

theorem migrateTo_of_store {σ : Type} [EventStore σ] (s : σ) :
    (∃ e s', m.migrateTo now target s = ⟨.error (.store e), s', m⟩) ∨
      ∃ s' log, EventStore.enter .write s = (.ok (), s') ∧ EventStore.load s' = .ok log ∧
        m.migrateTo now target s = m.migrateLog now target log s' := by
  rw [migrateTo]
  cases EventStore.enter .write s with
  | mk entered s' =>
    cases entered with
    | error e => exact .inl ⟨e, s', rfl⟩
    | ok _ =>
      cases hload : EventStore.load s' with
      | error e => exact .inl ⟨e, s', by simp only [hload]⟩
      | ok log => exact .inr ⟨s', log, rfl, hload, by simp only [hload]⟩

/-- How the migration of a log that was read from a store ends: with a result and a store. -/
inductive LogEnds {σ : Type} [EventStore σ] (log : EventLog) (s : σ) :
    Except MigrationError Report → σ → Prop
  | unreachable {e : MigrationError} (h : m.targetProblem? log.migrationIndex target = some e) :
      LogEnds log s (.error e) s
  | failed {e : MigrationError} (reachable : m.targetProblem? log.migrationIndex target = none)
      (h : runInOrder m.registry now (m.chain.pending log.migrationIndex target) log.positions =
        .error e) : LogEnds log s (.error e) s
  | inconsistent {e : MigrationError} {positions : List Position}
      (reachable : m.targetProblem? log.migrationIndex target = none)
      (run : runInOrder m.registry now (m.chain.pending log.migrationIndex target) log.positions =
        .ok positions)
      (h : m.verifyAt target positions = .error e) : LogEnds log s (.error e) s
  | untouched {positions : List Position}
      (reachable : m.targetProblem? log.migrationIndex target = none)
      (run : runInOrder m.registry now (m.chain.pending log.migrationIndex target) log.positions =
        .ok positions)
      (verified : m.verifyAt target positions = .ok ())
      (h : m.chain.pending log.migrationIndex target = []) :
      LogEnds log s (.ok ⟨log.migrationIndex, target,
        (m.chain.pending log.migrationIndex target).map Step.name, positions.length,
        target = m.latest⟩) s
  | unwritten {e : StoreError} {positions : List Position} {s' : σ}
      (reachable : m.targetProblem? log.migrationIndex target = none)
      (run : runInOrder m.registry now (m.chain.pending log.migrationIndex target) log.positions =
        .ok positions)
      (verified : m.verifyAt target positions = .ok ())
      (some : m.chain.pending log.migrationIndex target ≠ [])
      (h : EventStore.replace ⟨target, positions⟩ s = (.error e, s')) :
      LogEnds log s (.error (.store e)) s'
  | written {positions : List Position} {s' : σ}
      (reachable : m.targetProblem? log.migrationIndex target = none)
      (run : runInOrder m.registry now (m.chain.pending log.migrationIndex target) log.positions =
        .ok positions)
      (verified : m.verifyAt target positions = .ok ())
      (some : m.chain.pending log.migrationIndex target ≠ [])
      (h : EventStore.replace ⟨target, positions⟩ s = (.ok (), s')) :
      LogEnds log s (.ok ⟨log.migrationIndex, target,
        (m.chain.pending log.migrationIndex target).map Step.name, positions.length,
        target = m.latest⟩) s'

theorem logEnds {σ : Type} [EventStore σ] (log : EventLog) (s : σ) :
    m.LogEnds now target log s (m.migrateLog now target log s).result
      (m.migrateLog now target log s).store := by
  rw [migrateLog]
  cases hreachable : m.targetProblem? log.migrationIndex target with
  | some e => exact .unreachable hreachable
  | none =>
    have hadvance := m.advance_eq now target log
    generalize m.advance now target log = advanced at hadvance ⊢
    obtain ⟨progress, after⟩ := advanced
    cases hrun : runInOrder m.registry now (m.chain.pending log.migrationIndex target)
        log.positions with
    | error e =>
      rw [hrun] at hadvance
      subst hadvance
      exact .failed hreachable hrun
    | ok positions =>
      rw [hrun] at hadvance
      subst hadvance
      simp only [Except.map]
      cases hverified : m.verifyAt target positions with
      | error e => exact .inconsistent hreachable hrun hverified
      | ok _ =>
        by_cases hnone : m.chain.pending log.migrationIndex target = []
        · have hnamed : ((m.chain.pending log.migrationIndex target).map
              Step.name).isEmpty = true := by simp [hnone]
          simp only [hnamed, if_true]
          exact .untouched hreachable hrun hverified hnone
        · have hnamed : ((m.chain.pending log.migrationIndex target).map
              Step.name).isEmpty = false := by simp [hnone]
          simp only [hnamed, Bool.false_eq_true, if_false]
          cases hwrite : EventStore.replace ⟨target, positions⟩ s with
          | mk result s' =>
            cases result with
            | error e => exact .unwritten hreachable hrun hverified hnone hwrite
            | ok _ => exact .written hreachable hrun hverified hnone hwrite

theorem migrateTo_eq_migrateLog :
    m.migrateTo now target store = m.migrateLog now target store.log store := rfl

theorem result_of_failed {e : MigrationError}
    (reachable : m.targetProblem? store.log.migrationIndex target = none)
    (h : runInOrder m.registry now (m.chain.pending store.log.migrationIndex target)
      store.log.positions = .error e) :
    (m.migrateTo now target store).result = .error e := by
  have hadvance := m.advance_eq now target store.log
  rw [h] at hadvance
  rw [migrateTo_eq_migrateLog, migrateLog]
  simp only [reachable]
  generalize m.advance now target store.log = advanced at hadvance ⊢
  obtain ⟨progress, after⟩ := advanced
  subst hadvance
  rfl

/-- All that a migration can come to. -/
theorem migrateTo_cases :
    (∃ positions, m.Succeeds now target store positions ∧
      (m.migrateTo now target store).result = .ok (m.reportOf target store positions) ∧
      (m.migrateTo now target store).store = m.storeOf target store positions) ∨
    (∀ positions, ¬ m.Succeeds now target store positions) ∧
      (∃ e, (m.migrateTo now target store).result = .error e) ∧
      (m.migrateTo now target store).store = store := by
  rw [migrateTo_eq_migrateLog]
  have hends := m.logEnds now target store.log store
  generalize (m.migrateLog now target store.log store).result = result at hends ⊢
  generalize (m.migrateLog now target store.log store).store = s at hends ⊢
  cases hends with
  | unreachable h =>
    refine .inr ⟨fun positions hsucceeds => ?_, ⟨_, rfl⟩, rfl⟩
    cases h.symm.trans hsucceeds.reachable
  | failed _ h =>
    refine .inr ⟨fun positions hsucceeds => ?_, ⟨_, rfl⟩, rfl⟩
    cases h.symm.trans hsucceeds.run
  | inconsistent _ run h =>
    refine .inr ⟨fun positions hsucceeds => ?_, ⟨_, rfl⟩, rfl⟩
    obtain rfl := Except.ok.inj (run.symm.trans hsucceeds.run)
    cases h.symm.trans hsucceeds.verified
  | @untouched positions reachable run verified h =>
    exact .inl ⟨positions, ⟨reachable, run, verified, fun hsome => absurd h hsome⟩, rfl,
      by simp [storeOf, h]⟩
  | @unwritten e positions _ _ run _ hsome h =>
    have hwrite : store.replace ⟨target, positions⟩ = _ := h
    rw [MemoryStore.replace] at hwrite
    cases hproblem : (⟨target, positions⟩ : EventLog).problem? with
    | none =>
      rw [hproblem] at hwrite
      cases hwrite
    | some problem =>
      rw [hproblem] at hwrite
      cases hwrite
      refine .inr ⟨fun positions' hsucceeds => ?_, ⟨_, rfl⟩, rfl⟩
      obtain rfl := Except.ok.inj (run.symm.trans hsucceeds.run)
      cases hproblem.symm.trans (hsucceeds.writable hsome)
  | @written positions _ reachable run verified hsome h =>
    have hwrite : store.replace ⟨target, positions⟩ = _ := h
    rw [MemoryStore.replace] at hwrite
    cases hproblem : (⟨target, positions⟩ : EventLog).problem? with
    | some problem =>
      rw [hproblem] at hwrite
      cases hwrite
    | none =>
      rw [hproblem] at hwrite
      cases hwrite
      exact .inl ⟨positions, ⟨reachable, run, verified, fun _ => hproblem⟩, rfl,
        by simp [storeOf, hsome]⟩

section Outcomes

variable {m now target store} {positions : List Position}

/-- A migration of one log to one target has one end. -/
theorem Succeeds.unique {positions' : List Position} (h : m.Succeeds now target store positions)
    (h' : m.Succeeds now target store positions') : positions = positions' :=
  Except.ok.inj (h.run.symm.trans h'.run)

theorem Succeeds.result_eq (h : m.Succeeds now target store positions) :
    (m.migrateTo now target store).result = .ok (m.reportOf target store positions) := by
  rcases m.migrateTo_cases now target store with ⟨positions', h', hresult, -⟩ | ⟨hfails, -⟩
  · rw [h.unique h', hresult]
  · exact absurd h (hfails positions)

theorem Succeeds.store_eq (h : m.Succeeds now target store positions) :
    (m.migrateTo now target store).store = m.storeOf target store positions := by
  rcases m.migrateTo_cases now target store with ⟨positions', h', -, hstore⟩ | ⟨hfails, -⟩
  · rw [h.unique h', hstore]
  · exact absurd h (hfails positions)

theorem exists_succeeds_iff : (∃ report, (m.migrateTo now target store).result = .ok report) ↔
    ∃ positions, m.Succeeds now target store positions := by
  constructor
  · rintro ⟨report, hok⟩
    rcases m.migrateTo_cases now target store with ⟨positions, h, -⟩ | ⟨-, ⟨e, he⟩, -⟩
    · exact ⟨positions, h⟩
    · cases he.symm.trans hok
  · rintro ⟨positions, h⟩
    exact ⟨_, h.result_eq⟩

theorem store_of_error {e : MigrationError} (he : (m.migrateTo now target store).result = .error e) :
    (m.migrateTo now target store).store = store := by
  rcases m.migrateTo_cases now target store with ⟨positions, -, hresult, -⟩ | ⟨-, -, hstore⟩
  · cases hresult.symm.trans he
  · exact hstore

/-- The store holds the positions in which a migration ends, written or not. -/
theorem Succeeds.log_storeOf (h : m.Succeeds now target store positions) :
    (m.storeOf target store positions).log =
      ⟨if m.chain.pending store.log.migrationIndex target = [] then store.log.migrationIndex
        else target, positions⟩ := by
  rw [storeOf]
  by_cases hnone : m.chain.pending store.log.migrationIndex target = []
  · have hrun := h.run
    rw [hnone] at hrun
    obtain rfl : store.log.positions = positions := Except.ok.inj hrun
    simp only [hnone, if_true]
  · simp only [hnone, if_false]

end Outcomes

section Used

theorem migrator_migrateLog {σ : Type} [EventStore σ] (log : EventLog) (s : σ) :
    (m.migrateLog now target log s).migrator = m ∨
      (m.migrateLog now target log s).migrator = (m.advance now target log).2 := by
  rw [migrateLog]
  split
  · exact .inl rfl
  · right
    rcases m.advance now target log with ⟨_ | progress, after⟩
    · rfl
    · dsimp only
      cases m.verifyAt target progress.positions with
      | error e => rfl
      | ok _ =>
        dsimp only
        split
        · rfl
        · rcases EventStore.replace ⟨target, progress.positions⟩ s with ⟨_ | _, _⟩ <;> rfl

theorem migrator_migrateTo : (m.migrateTo now target store).migrator = m ∨
    (m.migrateTo now target store).migrator = (m.advance now target store.log).2 :=
  m.migrator_migrateLog now target store.log store

variable {m now target} {σ : Type} [EventStore σ] {s : σ}

theorem registry_migrateTo : (m.migrateTo now target s).migrator.registry = m.registry := by
  rcases m.migrateTo_of_store now target s with ⟨e, s', heq⟩ | ⟨s', log, -, -, heq⟩
  · rw [heq]
  · rw [heq]
    rcases m.migrator_migrateLog now target log s' with h | h <;> rw [h]
    rfl

theorem latest_migrateTo : (m.migrateTo now target s).migrator.latest = m.latest := by
  rcases m.migrateTo_of_store now target s with ⟨e, s', heq⟩ | ⟨s', log, -, -, heq⟩
  · rw [heq]
  · rw [heq]
    rcases m.migrator_migrateLog now target log s' with h | h <;> rw [h]
    simp [latest, Chain.latest, advance, targets_runPending]

end Used

/-- A migration succeeds exactly if nothing stands in its way, it never leaves the store half
changed, and what it writes, if it writes at all, is the log that the pending steps make in
order. -/
theorem migrateTo_all_or_nothing (m : Migrator) (now : Int64) (target : UInt64)
    (store : MemoryStore) :
    ((∃ report, (m.migrateTo now target store).result = .ok report) ↔
      ∃ positions, m.Succeeds now target store positions) ∧
    match (m.migrateTo now target store).result with
    | .error _ => (m.migrateTo now target store).store = store
    | .ok report =>
      report.applied = (m.chain.pending store.log.migrationIndex target).map Step.name ∧
        if report.applied = [] then (m.migrateTo now target store).store = store
        else ∃ positions,
          runInOrder m.registry now (m.chain.pending store.log.migrationIndex target)
            store.log.positions = .ok positions ∧
          (m.migrateTo now target store).store = ⟨⟨target, positions⟩, store.writes + 1⟩ := by
  refine ⟨exists_succeeds_iff, ?_⟩
  cases hresult : (m.migrateTo now target store).result with
  | error e => exact store_of_error hresult
  | ok report =>
    obtain ⟨positions, h⟩ := exists_succeeds_iff.1 ⟨report, hresult⟩
    obtain rfl : m.reportOf target store positions = report :=
      Except.ok.inj (h.result_eq.symm.trans hresult)
    refine ⟨rfl, ?_⟩
    rw [h.store_eq, storeOf]
    by_cases hnone : m.chain.pending store.log.migrationIndex target = []
    · simp [reportOf, hnone]
    · simp [reportOf, hnone, h.run]

end Migrator

end MeetingLedger.Migration
