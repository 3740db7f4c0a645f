import MeetingLedger.Proofs.Migration.Engine.Export
import MeetingLedger.Proofs.Migration.Engine.Forgetful

/-!
# Stages in stores of any kind

Between the two stages of a migration the log is in the store. A store that gives it back to the
second stage ends like the memory, where nothing is lost on the way. A directory does not if the log
is not read from its JSON text as it was written.
-/

namespace MeetingLedger.Migration

open Schema Storage EventStore

theorem Chain.lt_of_pending {c : Chain} {current target : UInt64}
    (h : c.pending current target ≠ []) : current < target := by
  obtain ⟨s, hs⟩ := List.exists_mem_of_ne_nil _ h
  have hpending := (List.mem_filter.1 hs).2
  rw [Step.isPending, Bool.and_eq_true, decide_eq_true_eq, decide_eq_true_eq] at hpending
  exact UInt64.lt_of_lt_of_le hpending.1 hpending.2

section Simulation

variable {σ : Type} [EventStore σ] {hold : Holding σ} {s : σ} {log : EventLog}

/-- A migration ends like one in memory that found the same log: both succeed or both fail, and the
store holds the log that is in memory then, if this is the one that was found or is exact. -/
structure EndsLike (hold : Holding σ) (log : EventLog) (seen : Except MigrationError Report × σ)
    (memory : Except MigrationError Report × MemoryStore) : Prop where
  isOk : (∃ report, seen.1 = .ok report) ↔ ∃ report, memory.1 = .ok report
  holds : (∃ report, memory.1 = .ok report) →
    memory.2.log = log ∨ hold.Exact memory.2.log → hold.Holds seen.2 memory.2.log

theorem EndsLike.failed {e : MigrationError} (s : σ) (memory : MemoryStore) :
    EndsLike hold log (.error e, s) (.error e, memory) :=
  ⟨by simp, by simp⟩

theorem EndsLike.holds_exact {seen : Except MigrationError Report × σ}
    {memory : Except MigrationError Report × MemoryStore} (h : EndsLike hold log seen memory)
    (hok : ∃ report, memory.1 = .ok report) {after : EventLog} (hlog : memory.2.log = after)
    (hexact : hold.Exact after) : hold.Holds seen.2 after := by
  subst hlog
  exact h.holds hok (.inr hexact)

namespace Migrator

variable (m : Migrator) (now : Int64) (target : UInt64) (memory : MemoryStore)

theorem inState_of_mem {m m' : Migrator} {now : Int64} {target : UInt64} {s : σ}
    (h : m' ∈ [m, (m.migrateTo now target s).migrator]) : m.InState m' := by
  simp only [List.mem_cons, List.not_mem_nil, or_false] at h
  rcases h with rfl | rfl
  · exact .refl m'
  · exact m.inState_migrateTo now target s

/-- The way of a log through a migration is the same in every store, and a store that holds the log
takes just what the memory takes. -/
theorem endsLike_migrateTo (hheld : hold.Holds s memory.log) :
    EndsLike hold memory.log (m.migrateTo now target s).seen
      (m.migrateTo now target memory).seen := by
  obtain ⟨s', henter, hload, hheld'⟩ := hold.enters hheld
  have hstore : m.migrateTo now target s = m.migrateLog now target memory.log s' := by
    rw [migrateTo, henter]
    simp only [hload]
  rw [hstore, migrateTo_eq_migrateLog, seen_migrateLog, seen_migrateLog]
  cases m.targetProblem? memory.log.migrationIndex target with
  | some e => exact .failed s' memory
  | none =>
    dsimp only
    cases runInOrder m.registry now (m.chain.pending memory.log.migrationIndex target)
        memory.log.positions with
    | error e => exact .failed s' memory
    | ok positions =>
      dsimp only
      cases m.verifyAt target positions with
      | error e => exact .failed s' memory
      | ok _ =>
        dsimp only
        split
        · exact ⟨by simp, fun _ _ => hheld'⟩
        · rename_i hsome
          have hlt : memory.log.migrationIndex < target :=
            Chain.lt_of_pending fun hnone => hsome (by rw [hnone]; rfl)
          cases hproblem : (⟨target, positions⟩ : EventLog).problem? with
          | some p =>
            have hmalformed : (⟨target, positions⟩ : EventLog).problem? ≠ none := by
              simp [hproblem]
            obtain ⟨e, s'', hrefused⟩ := hold.refuses hheld henter hmalformed
            obtain ⟨e', hmemory⟩ := MemoryStore.exists_of_problem hmalformed memory
            have hmemory' : EventStore.replace ⟨target, positions⟩ memory = _ := hmemory
            rw [hrefused, hmemory']
            exact ⟨by simp [seenOfWrite], by simp [seenOfWrite]⟩
          | none =>
            obtain ⟨s'', htaken, hholds⟩ := hold.takes hheld henter hproblem
            have hmemory : EventStore.replace ⟨target, positions⟩ memory = _ :=
              MemoryStore.replace_eq hproblem memory
            rw [htaken, hmemory]
            refine ⟨by simp [seenOfWrite], fun _ hexact => hholds (hexact.resolve_left ?_)⟩
            -- A log that was written is at another index than before.
            intro hsame
            have hindex : target = memory.log.migrationIndex :=
              congrArg EventLog.migrationIndex hsame
            exact UInt64.ne_of_lt hlt hindex.symm

theorem isOk_migrateTo_iff (hheld : hold.Holds s memory.log) :
    (∃ report, (m.migrateTo now target s).result = .ok report) ↔
      ∃ report, (m.migrateTo now target memory).result = .ok report :=
  (m.endsLike_migrateTo now target memory hheld).isOk

/-- The log that a migration leaves is the one that is in memory after it. -/
theorem logAfter?_of_held (hheld : hold.Holds s memory.log)
    (hok : ∃ report, (m.migrateTo now target memory).result = .ok report) :
    m.logAfter? now target s = some (m.migrateTo now target memory).store.log := by
  obtain ⟨s', henter, hload, -⟩ := hold.enters hheld
  obtain ⟨positions, h⟩ := exists_succeeds_iff.1 hok
  rw [logAfter?_eq henter hload h.run, h.store_eq, storeOf]
  split
  · rfl
  · rfl

end Migrator

end Simulation

namespace Migrator

section Stages

variable {σ : Type} [EventStore σ] {hold : Holding σ} {store : σ} {log : EventLog}

/-- A migration of a store ends with a log, and the store holds this log if it is exact. -/
def EndsWith (hold : Holding σ) (m : Migrator) (now : Int64) (target : UInt64) (store : σ)
    (log : EventLog) : Prop :=
  m.logAfter? now target store = some log ∧
    (hold.Exact log → hold.Holds (m.migrateTo now target store).store log)

/-- A migration along the standard chain in two stages succeeds exactly if it succeeds in one go, and
the logs with which the two end differ at most in the stamp of one position that a model step
appended. It takes a store that gives back the log that the first stage left to it. -/
theorem migrateTo_in_stages {r : Registry} {mid target : UInt64} (hheld : hold.Holds store log)
    (hlog : log.problem? = none) (hcurrent : log.migrationIndex ≤ mid) (hmid : mid ≤ target)
    (htarget : target ≤ Chain.standard.latest) (now₁ now₂ : Int64)
    (hexact : ∀ after, (⟨r, .standard⟩ : Migrator).logAfter? now₁ mid store = some after →
      after = log ∨ hold.Exact after) :
    let m : Migrator := ⟨r, .standard⟩
    let first := m.migrateTo now₁ mid store
    ∀ m' ∈ [m, first.migrator],
      let second := m'.migrateTo now₂ target first.store
      let staged := (∃ report, first.result = .ok report) ∧ ∃ report, second.result = .ok report
      (∀ now, staged ↔ ∃ report, (m.migrateTo now target store).result = .ok report) ∧
      (staged → ∃ index positions, Stamped positions ∧
        (∃ stamp, (stamp = now₁ ∨ stamp = now₂) ∧
          m'.EndsWith hold now₂ target first.store ⟨index, positions stamp⟩) ∧
        ∀ now, m.EndsWith hold now target store ⟨index, positions now⟩) := by
  intro m first m' hm' second staged
  let memory := MemoryStore.ofLog log
  let first₀ := m.migrateTo now₁ mid memory
  let second₀ := m.migrateTo now₂ target first₀.store
  obtain ⟨hiff, hlogs⟩ := @migrateTo_in_stages_of_memory r mid target memory hlog hcurrent hmid
    htarget now₁ now₂ m List.mem_cons_self
  -- The state in which the first stage left the migrator does not matter to the second one.
  have hseen : (m'.migrateTo now₂ target first₀.store).seen = second₀.seen :=
    (inState_of_mem hm').seen_migrateTo (fun _ hs => Chain.isForgetful_of_mem_standard hs) now₂
      target first₀.store
  have hfirst : EndsLike hold log first.seen first₀.seen :=
    m.endsLike_migrateTo now₁ mid memory hheld
  have hgiven (hok : ∃ report, first₀.result = .ok report) :
      hold.Holds first.store first₀.store.log :=
    hfirst.holds hok (hexact _ (m.logAfter?_of_held now₁ mid memory hheld hok))
  have hsecond (hok : ∃ report, first₀.result = .ok report) :
      EndsLike hold first₀.store.log second.seen second₀.seen := by
    rw [← hseen]
    exact m'.endsLike_migrateTo now₂ target first₀.store (hgiven hok)
  have hstaged : staged ↔
      (∃ report, first₀.result = .ok report) ∧ ∃ report, second₀.result = .ok report := by
    constructor
    · rintro ⟨hok₁, hok₂⟩
      have hok := hfirst.isOk.1 hok₁
      exact ⟨hok, (hsecond hok).isOk.1 hok₂⟩
    · rintro ⟨hok₁, hok₂⟩
      exact ⟨hfirst.isOk.2 hok₁, (hsecond hok₁).isOk.2 hok₂⟩
  have hdirect (now : Int64) : EndsLike hold log (m.migrateTo now target store).seen
      (m.migrateTo now target memory).seen := m.endsLike_migrateTo now target memory hheld
  refine ⟨fun now => hstaged.trans ((hiff now).trans (hdirect now).isOk.symm), fun hok => ?_⟩
  obtain ⟨hok₁, hok₂⟩ := hstaged.1 hok
  obtain ⟨index, positions, hstamped, ⟨stamp, hstamp, hend⟩, hends⟩ := hlogs ⟨hok₁, hok₂⟩
  obtain ⟨hresult, hstore⟩ := Prod.mk.inj hseen
  have hafter := m'.logAfter?_of_held now₂ target first₀.store (hgiven hok₁) (hresult ▸ hok₂)
  rw [hstore, hend] at hafter
  refine ⟨index, positions, hstamped, ⟨stamp, hstamp, hafter, fun hexact => ?_⟩,
    fun now => ⟨?_, fun hexact => ?_⟩⟩
  · exact (hsecond hok₁).holds_exact hok₂ hend hexact
  · rw [← hends now]
    exact m.logAfter?_of_held now target memory hheld ((hiff now).1 ⟨hok₁, hok₂⟩)
  · exact (hdirect now).holds_exact ((hiff now).1 ⟨hok₁, hok₂⟩) (hends now) hexact

end Stages

theorem migrateTo_in_stages_of_oneTopic :
    let first := unchecked.migrateTo 0 2 (oneTopic 1)
    let second := first.migrator.migrateTo 7 3 first.store
    MemoryStore.holding.Holds (oneTopic 1) (oneTopic 1).log ∧ (oneTopic 1).log.problem? = none ∧
      (∃ report, first.result = .ok report) ∧ (∃ report, second.result = .ok report) ∧
      ∃ index positions, Stamped positions ∧
        (∃ stamp, (stamp = 0 ∨ stamp = 7) ∧ second.store.log = ⟨index, positions stamp⟩) ∧
        ∀ now, (unchecked.migrateTo now 3 (oneTopic 1)).store.log = ⟨index, positions now⟩ := by
  intro first second
  have hheld : MemoryStore.holding.Holds (oneTopic 1) (oneTopic 1).log := rfl
  have hfirst := exists_eq_ok (x := first.result) (by decide +kernel)
  have hsecond := exists_eq_ok (x := second.result) (by decide +kernel)
  have hstages := @migrateTo_in_stages MemoryStore _ MemoryStore.holding (oneTopic 1) _ ⟨∅⟩ 2 3
    hheld rfl (by decide) (by decide) (by decide) 0 7 (fun after _ => .inr trivial)
    first.migrator (List.mem_cons_of_mem _ List.mem_cons_self)
  obtain ⟨index, positions, hstamped, ⟨stamp, hstamp, -, hend⟩, hends⟩ :=
    hstages.2 ⟨hfirst, hsecond⟩
  exact ⟨hheld, rfl, hfirst, hsecond, index, positions, hstamped, ⟨stamp, hstamp, hend trivial⟩,
    fun now => (hends now).2 trivial⟩

end Migrator

theorem holds_of_reread {m : Migrator} {now : Int64} {target : UInt64} {directory : LogDirectory}
    {log after reread : EventLog} {report : Report} (hheld : directory.Holds log)
    (hok : (m.migrateTo now target directory).result = .ok report)
    (hpending : m.chain.pending log.migrationIndex target ≠ [])
    (hafter : m.logAfter? now target directory = some after)
    (htext : EventLog.ofText? (after.toJson.pretty 0) = some reread)
    (hproblem : reread.problem? = none) : (m.migrateTo now target directory).store.Holds reread := by
  obtain ⟨s, former, positions, henter, hload, -, hrun, -, hstore⟩ :=
    Migrator.exists_of_migrateTo_ok hok
  obtain ⟨s', henter', hload', -⟩ := LogDirectory.holding.enters hheld
  obtain rfl : s' = s := congrArg Prod.snd (henter'.symm.trans henter)
  obtain rfl : log = former := Except.ok.inj (hload'.symm.trans hload)
  rw [if_neg hpending] at hstore
  rw [Migrator.logAfter?_eq henter hload hrun, if_neg hpending] at hafter
  obtain rfl := Option.some.inj hafter
  generalize (m.migrateTo now target directory).store = done at hstore ⊢
  have hwritten : s'.replace ⟨target, positions⟩ = (.ok (), done) := hstore
  obtain ⟨s'', hreplace, hholds⟩ :=
    hheld.replace henter (LogDirectory.problem?_of_replace hwritten)
  obtain rfl : s'' = done := congrArg Prod.snd (hreplace.symm.trans hwritten)
  exact hholds reread hproblem htext

section Gadgets

/-- The text of the log of the gadget between the stages, with the least weight. -/
def gadgetTextBetween : String :=
  "\x7b\n  \"migration_index\": 2,\n  \"positions\": [\n    \x7b\n      \"events\": [\n" ++
    "        \x7b\n          \"fields\": \x7b\n            \"weight\": 5.850324529815226e-10\n" ++
    "          \x7d,\n          \"fqid\": \"gadget/1\",\n          \"type\": \"create\"\n" ++
    "        \x7d\n      ],\n      \"position\": 1,\n      \"timestamp\": 1\n    \x7d\n  ]\n\x7d"

set_option maxRecDepth 1000 in
theorem exists_gadgetLog_of_stages : ∃ log, EventLog.ofText? gadgetText = some log ∧
    log.problem? = none ∧ log.migrationIndex = 1 ∧
    let m : Migrator := ⟨gadgets, .standard⟩
    (∃ report, (m.migrateTo 0 4 (MemoryStore.ofLog log)).result = .ok report) ∧
    (∃ report, (m.migrateTo 0 2 (MemoryStore.ofLog log)).result = .ok report) ∧
    (m.migrateTo 0 2 (MemoryStore.ofLog log)).store.log.toJson.pretty 0 = gadgetTextBetween := by
  have hread : (Registry.ofText gadgetModels).toOption.any (fun r =>
      let m : Migrator := ⟨r, .standard⟩
      (EventLog.ofText? gadgetText).any fun log => log.problem?.isNone &&
        log.migrationIndex == 1 &&
        (m.migrateTo 0 4 (MemoryStore.ofLog log)).result.toOption.isSome &&
        (m.migrateTo 0 2 (MemoryStore.ofLog log)).result.toOption.isSome &&
        (m.migrateTo 0 2 (MemoryStore.ofLog log)).store.log.toJson.pretty 0 ==
          gadgetTextBetween) = true := by
    rw [Registry.ofText, Yaml.parse?, toList_of_eq_ofList (s := gadgetModels)
      (append_eq_ofList rfl rfl), EventLog.ofText?, Json.read?,
      toList_of_eq_ofList (s := gadgetText) (append_eq_ofList (append_eq_ofList rfl rfl) rfl)]
    decide +kernel
  have hgadgets := (gadgets_of_any hread).2
  generalize gadgets = r at hgadgets ⊢
  obtain ⟨log, hlog, hall⟩ := (Option.any_eq_true ..).1 hgadgets
  simp only [Bool.and_eq_true, Option.isNone_iff_eq_none, beq_iff_eq] at hall
  obtain ⟨⟨⟨⟨hproblem, hindex⟩, hdirect⟩, hfirst⟩, hwritten⟩ := hall
  exact ⟨log, hlog, hproblem, hindex, exists_eq_ok hdirect, exists_eq_ok hfirst, hwritten⟩

set_option maxRecDepth 1000 in
/-- The log as which this text is read does not pass the check. -/
theorem exists_gadgetLog_between : ∃ log, EventLog.ofText? gadgetTextBetween = some log ∧
    log.problem? = none ∧
    ¬ ∃ report, ((⟨gadgets, .standard⟩ : Migrator).migrateTo 0 4
      (MemoryStore.ofLog log)).result = .ok report := by
  have hread : (Registry.ofText gadgetModels).toOption.any (fun r =>
      (EventLog.ofText? gadgetTextBetween).any fun log => log.problem?.isNone &&
        ((⟨r, .standard⟩ : Migrator).migrateTo 0 4
          (MemoryStore.ofLog log)).result.toOption.isNone) = true := by
    rw [Registry.ofText, Yaml.parse?, toList_of_eq_ofList (s := gadgetModels)
      (append_eq_ofList rfl rfl), EventLog.ofText?, Json.read?,
      toList_of_eq_ofList (s := gadgetTextBetween)
        (append_eq_ofList (append_eq_ofList (append_eq_ofList rfl rfl) rfl) rfl)]
    decide +kernel
  have hgadgets := (gadgets_of_any hread).2
  generalize gadgets = r at hgadgets ⊢
  obtain ⟨log, hlog, hall⟩ := (Option.any_eq_true ..).1 hgadgets
  rw [Bool.and_eq_true, Option.isNone_iff_eq_none, Option.isNone_iff_eq_none] at hall
  refine ⟨log, hlog, hall.1, ?_⟩
  rintro ⟨report, hok⟩
  rw [hok] at hall
  cases hall.2

/-- The log in the directory is migrated in one go, and the first stage succeeds as well. But the
weight loses a step when the second stage reads it, so that its log does not pass the check. -/
theorem gadgetDirectory_fails_in_stages :
    let m : Migrator := ⟨gadgets, .standard⟩
    let first := m.migrateTo 0 2 gadgetDirectory
    Registry.ofText gadgetModels = .ok gadgets ∧
    ∃ log, LogDirectory.holding.Holds gadgetDirectory log ∧ log.problem? = none ∧
      log.migrationIndex = 1 ∧
      (∃ report, (m.migrateTo 0 4 gadgetDirectory).result = .ok report) ∧
      (∃ report, first.result = .ok report) ∧
      ∀ m' ∈ [m, first.migrator], ¬ ∃ report, (m'.migrateTo 0 4 first.store).result = .ok report := by
  intro m first
  obtain ⟨log, hlog, hproblem, hindex, hdirect, hfirst, hwritten⟩ := exists_gadgetLog_of_stages
  obtain ⟨between, hbetween, hproblem', hrefused⟩ := exists_gadgetLog_between
  have hheld : LogDirectory.holding.Holds gadgetDirectory log :=
    ⟨LogDirectory.load_eq_ok_iff.2 ⟨gadgetText, rfl, hlog, hproblem⟩, gadgetDirectoryLocked, rfl⟩
  obtain ⟨report, hok⟩ := (m.isOk_migrateTo_iff 0 2 (MemoryStore.ofLog log) hheld).2 hfirst
  have hpending : m.chain.pending log.migrationIndex 2 ≠ [] := by
    rw [hindex]
    exact nofun
  have hbetween' : LogDirectory.holding.Holds first.store between :=
    holds_of_reread hheld hok hpending (m.logAfter?_of_held 0 2 (MemoryStore.ofLog log) hheld hfirst)
      (hwritten.symm ▸ hbetween) hproblem'
  refine ⟨ofText_gadgetModels, log, hheld, hproblem, hindex,
    (m.isOk_migrateTo_iff 0 4 (MemoryStore.ofLog log) hheld).2 hdirect, ⟨report, hok⟩, ?_⟩
  intro m' hm' hsecond
  have hseen := (Migrator.inState_of_mem hm').seen_migrateTo
    (fun _ hs => Chain.isForgetful_of_mem_standard hs) 0 4 (MemoryStore.ofLog between)
  have hsecond' := (m'.isOk_migrateTo_iff 0 4 (MemoryStore.ofLog between) hbetween').1 hsecond
  rw [(Prod.mk.inj hseen).1] at hsecond'
  exact hrefused hsecond'

end Gadgets

end MeetingLedger.Migration
