import MeetingLedger.Proofs.Consistency.Repair
import MeetingLedger.Proofs.Migration.Creations
import MeetingLedger.Proofs.Schema.Mirror
import MeetingLedger.Proofs.Storage.Readers

/-!
# Exports after a migration

The check of a migration to the latest index is the check of an export under the default options, and
the snapshot that passes it can be written as a document, read back and checked again. So a log that
was finalized can be exported and imported, as long as the store gives back the log that it was given.
-/

namespace MeetingLedger

open Schema Storage Consistency

namespace Migration

theorem mem_of_mem_creationsOf {ps : List Position} {f : Fqid} (hf : f ∈ creationsOf ps) :
    ∃ p ∈ ps, ∃ e ∈ p.events, e.fqid = f := by
  obtain ⟨e, he, hcreated⟩ := List.mem_filterMap.1 hf
  obtain ⟨p, hp, he⟩ := List.mem_flatMap.1 he
  refine ⟨p, hp, e, he, ?_⟩
  cases e <;> simp_all [Event.creation?, Event.fqid]

namespace Migrator

variable {m : Migrator} {now : Int64} {target : UInt64} {config : Config}

section Logs

variable {log : EventLog} {s : Snapshot}

theorem exportLog_eq_ok_iff : m.exportLog config log = .ok s ↔
    ∃ h, History.replay log.positions = .ok h ∧
      (⟨m.registry, config, m.latest⟩ : Checker).run (h.toSnapshot log.migrationIndex) = (s, []) := by
  rw [exportLog]
  cases History.replay log.positions with
  | error e => simp
  | ok h =>
    simp only [Except.ok.injEq, exists_eq_left']
    rcases (⟨m.registry, config, m.latest⟩ : Checker).run (h.toSnapshot log.migrationIndex) with
      ⟨s', _ | _⟩
    · simp
    · simp

/-- What passes the check at the end of a migration is exported under the default options. -/
theorem exportLog_of_verify {positions : List Position}
    (hverified : verify m.registry m.latest positions = .ok ()) :
    ∃ s, m.exportLog { mode := .all } ⟨m.latest, positions⟩ = .ok s := by
  rw [verify] at hverified
  cases hreplay : History.replay positions with
  | error e => simp [hreplay] at hverified
  | ok h =>
    rw [hreplay] at hverified
    dsimp only at hverified
    split at hverified
    · rename_i hclean
      exact ⟨_, exportLog_eq_ok_iff.2 ⟨h, hreplay, Prod.ext rfl (List.isEmpty_iff.1 hclean)⟩⟩
    · cases hverified

theorem migrationIndex_of_exportLog (h : m.exportLog config log = .ok s) :
    s.migrationIndex = some log.migrationIndex := by
  obtain ⟨h, -, hrun⟩ := exportLog_eq_ok_iff.1 h
  obtain rfl := congrArg Prod.fst hrun
  rw [Checker.migrationIndex_run, History.migrationIndex_toSnapshot]

/-- The document of an exported snapshot is read back and passes the check of the export. -/
theorem reimport_of_exportLog (hnames : ∀ f ∈ creationsOf log.positions, f.IsReadable)
    (hkeeps : config.KeepsIds) (h : m.exportLog config log = .ok s) :
    Snapshot.ofJson s.toJson = .ok s ∧
      (⟨m.registry, config, m.latest⟩ : Checker).checkDocument s.toJson = .ok s := by
  obtain ⟨h, hreplay, hrun⟩ := exportLog_eq_ok_iff.1 h
  have hregular := isRegular_of_replay hreplay hnames log.migrationIndex
  obtain rfl := congrArg Prod.fst hrun
  exact ⟨Snapshot.ofJson_toJson (Checker.isRegular_run hkeeps hregular),
    Checker.checkDocument_toJson hkeeps hregular (congrArg Prod.snd hrun)⟩

end Logs

section Stores

variable {σ : Type} [EventStore σ] {store : σ}

theorem exportSnapshot_eq_ok_iff {s : Snapshot} : (m.exportSnapshot config store).1 = .ok s ↔
    ∃ log, EventStore.Gives store log ∧ m.exportLog config log = .ok s := by
  rw [exportSnapshot]
  rcases henter : EventStore.enter .read store with ⟨_ | _, s'⟩
  · simp [EventStore.Gives, henter]
  · cases hload : EventStore.load s' with
    | error e => simp [EventStore.Gives, henter, hload]
    | ok log => simp [EventStore.Gives, henter, hload]

theorem exportSnapshot_of_gives {log : EventLog} (h : EventStore.Gives store log) :
    (m.exportSnapshot config store).1 = m.exportLog config log := by
  obtain ⟨s, henter, hload⟩ := h
  simp only [exportSnapshot, henter, hload]

/-- What a store exports can be written as a document, read back and checked again, under all options
under which repairs leave the ids alone. -/
def Reimports (m : Migrator) (store : σ) : Prop :=
  ∀ config : Config, config.KeepsIds → ∀ s, (m.exportSnapshot config store).1 = .ok s →
    Snapshot.ofJson s.toJson = .ok s ∧
      (⟨m.registry, config, m.latest⟩ : Checker).checkDocument s.toJson = .ok s

theorem reimports_of_gives (hnames : ∀ log, EventStore.Gives store log →
    ∀ f ∈ creationsOf log.positions, f.IsReadable) : m.Reimports store := by
  intro config hkeeps s hexport
  obtain ⟨log, hgives, hlog⟩ := exportSnapshot_eq_ok_iff.1 hexport
  exact reimport_of_exportLog (hnames log hgives) hkeeps hlog

/-- The log with which a migration leaves a store that it does not fail on: the one that was there,
if no step was applied. -/
def logAfter? (m : Migrator) (now : Int64) (target : UInt64) (store : σ) : Option EventLog :=
  match EventStore.enter .write store with
  | (.error _, _) => none
  | (.ok (), s) =>
    match EventStore.load s with
    | .error _ => none
    | .ok log => (m.advance now target log).1.toOption.map fun p =>
        if p.applied.isEmpty then log else ⟨target, p.positions⟩

/-- A store that gives its readers the log with which a migration leaves it. -/
def IsKept (m : Migrator) (now : Int64) (target : UInt64) (store : σ) : Prop :=
  ∀ report log, (m.migrateTo now target store).result = .ok report →
    m.logAfter? now target store = some log → EventStore.Gives (m.migrateTo now target store).store log

theorem exists_of_migrateTo_ok {report : Report}
    (hok : (m.migrateTo now target store).result = .ok report) :
    ∃ s log positions, EventStore.enter .write store = (.ok (), s) ∧ EventStore.load s = .ok log ∧
      log.migrationIndex ≤ target ∧
      runInOrder m.registry now (m.chain.pending log.migrationIndex target) log.positions =
        .ok positions ∧
      m.verifyAt target positions = .ok () ∧
      if m.chain.pending log.migrationIndex target = [] then
        (m.migrateTo now target store).store = s
      else EventStore.replace ⟨target, positions⟩ s =
        (.ok (), (m.migrateTo now target store).store) := by
  rcases m.migrateTo_of_store now target store with ⟨e, s, heq⟩ | ⟨s, log, henter, hload, heq⟩
  · rw [heq] at hok
    cases hok
  · rw [heq] at hok ⊢
    have hends := m.logEnds now target log s
    generalize (m.migrateLog now target log s).result = result at hends hok
    generalize (m.migrateLog now target log s).store = s' at hends ⊢
    cases hends with
    | untouched reachable run verified h =>
      exact ⟨s, log, _, henter, hload, (targetProblem?_eq_none_iff.1 reachable).1, run, verified,
        by rw [if_pos h]⟩
    | written reachable run verified some h =>
      exact ⟨s, log, _, henter, hload, (targetProblem?_eq_none_iff.1 reachable).1, run, verified,
        by rwa [if_neg some]⟩
    | _ => cases hok

theorem logAfter?_eq {s : σ} {log : EventLog} {positions : List Position}
    (henter : EventStore.enter .write store = (.ok (), s)) (hload : EventStore.load s = .ok log)
    (hrun : runInOrder m.registry now (m.chain.pending log.migrationIndex target) log.positions =
      .ok positions) : m.logAfter? now target store =
      some (if m.chain.pending log.migrationIndex target = [] then log
        else ⟨target, positions⟩) := by
  simp [logAfter?, henter, hload, advance_eq, hrun, Except.map, Except.toOption]

/-- A log is kept by a store that gives readers what it gives writers and what it takes from them. -/
theorem isKept_of_store
    (hread : ∀ s log, EventStore.enter .write store = (.ok (), s) → EventStore.load s = .ok log →
      EventStore.Gives s log)
    (hwrite : ∀ s log s', EventStore.enter .write store = (.ok (), s) →
      m.logAfter? now target store = some log → EventStore.replace log s = (.ok (), s') →
      EventStore.Gives s' log) : m.IsKept now target store := by
  intro report log hok hafter
  obtain ⟨s, former, positions, henter, hload, -, hrun, -, hstore⟩ := exists_of_migrateTo_ok hok
  obtain rfl := Option.some.inj ((logAfter?_eq henter hload hrun).symm.trans hafter)
  split at hstore
  · rename_i hnone
    rw [hstore, if_pos hnone]
    exact hread s former henter hload
  · rename_i hsome
    rw [if_neg hsome] at hafter ⊢
    exact hwrite s _ _ henter hafter hstore

/-- A log in memory is kept. -/
theorem isKept_memory (m : Migrator) (now : Int64) (target : UInt64) (store : MemoryStore) :
    m.IsKept now target store := by
  refine isKept_of_store (fun s log _ hload => ?_) fun _ _ _ _ _ => MemoryStore.gives_of_replace
  obtain rfl : s.log = log := Except.ok.inj hload
  exact s.gives_log

/-- A log in a directory is kept if its JSON text is read as this log. -/
theorem isKept_directory {m : Migrator} {now : Int64} {target : UInt64} {directory : LogDirectory}
    (htext : ∀ log, m.logAfter? now target directory = some log →
      EventLog.ofText? (log.toJson.pretty 0) = some log) : m.IsKept now target directory :=
  isKept_of_store (fun _ _ henter hload => LogDirectory.gives_of_enter henter hload)
    fun _ log _ henter hafter hreplace =>
      LogDirectory.gives_of_replace henter hreplace (htext log hafter)

end Stores

end Migrator

/-- A log that no step of the standard chain is left for is at the latest index. -/
theorem Chain.eq_latest_of_pending {index : UInt64} (hindex : index ≤ standard.latest)
    (hnone : standard.pending index standard.latest = []) : index = standard.latest := by
  by_cases hlt : index < standard.latest
  · have hlast : Step.model FileInheritance.step ∈ standard.pending index standard.latest :=
      List.mem_filter.2 ⟨by simp [standard, standardSteps], by
        rw [Step.isPending, Bool.and_eq_true, decide_eq_true_eq, decide_eq_true_eq]
        exact ⟨hlt, UInt64.le_refl _⟩⟩
    rw [hnone] at hlast
    cases hlast
  · exact UInt64.le_antisymm hindex (UInt64.not_lt.1 hlt)

section Finalized

variable {σ : Type} [EventStore σ] {m : Migrator} {now : Int64} {store : σ}

/-- What finalize leaves is at the latest index, passes the check, and creates the same models. -/
theorem logAfter?_finalize (hchain : m.chain = .standard) {report : Report}
    (hok : (m.finalize now store).result = .ok report) :
    ∃ s log positions, EventStore.enter .write store = (.ok (), s) ∧ EventStore.load s = .ok log ∧
      m.logAfter? now m.latest store = some ⟨m.latest, positions⟩ ∧
      verify m.registry m.latest positions = .ok () ∧
      creationsOf positions = creationsOf log.positions := by
  obtain ⟨s, log, positions, henter, hload, hindex, hrun, hverified, -⟩ :=
    Migrator.exists_of_migrateTo_ok hok
  rw [Migrator.verifyAt, if_pos rfl] at hverified
  refine ⟨s, log, positions, henter, hload, ?_, hverified, ?_⟩
  · rw [Migrator.logAfter?_eq henter hload hrun]
    split
    · -- Nothing was written, but then the log was at the latest index and is the one that passed.
      rename_i hnone
      rw [hnone] at hrun
      rw [Migrator.latest, hchain] at hindex hnone ⊢
      obtain ⟨index, former⟩ := log
      obtain rfl : index = Chain.standard.latest := Chain.eq_latest_of_pending hindex hnone
      obtain rfl : former = positions := Except.ok.inj hrun
      rfl
    · rfl
  · refine creationsOf_runInOrder (fun s hs => ?_) hrun
    rw [hchain] at hs
    exact keepsCreations_of_mem_standardSteps s (List.mem_filter.1 hs).1

/-- A migrator that was used exports as it did before. -/
theorem Migrator.exportSnapshot_finalize (config : Config) (s : σ) :
    (m.finalize now store).migrator.exportSnapshot config s = m.exportSnapshot config s := by
  simp only [exportSnapshot, exportLog, finalize, registry_migrateTo, latest_migrateTo]

/-- A log that was finalized can be exported under the default options, at the latest index, and
whatever is exported, before or after, is a document that is read back as the exported snapshot and
passes the check of the export. It takes a store that gives back the log that was left to it. -/
theorem finalized_log_exports {σ : Type} [EventStore σ] (r : Registry) (now : Int64) (store : σ)
    (hnames : EventStore.HoldsReadable store)
    (hkept : (⟨r, .standard⟩ : Migrator).IsKept now Chain.standard.latest store) :
    let m : Migrator := ⟨r, .standard⟩
    let done := m.finalize now store
    ((∃ report, done.result = .ok report) →
      (∃ s, (done.migrator.exportSnapshot { mode := .all } done.store).1 = .ok s ∧
        s.migrationIndex = some m.latest) ∧ m.Reimports done.store) ∧
    m.Reimports store := by
  intro m done
  have hcreations {mode : LockMode} {s : σ} {log : EventLog}
      (henter : EventStore.enter mode store = (.ok (), s)) (hload : EventStore.load s = .ok log) :
      ∀ f ∈ creationsOf log.positions, f.IsReadable := by
    intro f hf
    obtain ⟨p, hp, e, he, rfl⟩ := mem_of_mem_creationsOf hf
    exact hnames mode s log henter hload p hp e he
  refine ⟨fun ⟨report, hok⟩ => ?_, Migrator.reimports_of_gives fun log hgives => ?_⟩
  · obtain ⟨s, log, positions, henter, hload, hafter, hverified, hsame⟩ :=
      logAfter?_finalize rfl hok
    have hgives := hkept report _ hok hafter
    constructor
    · obtain ⟨snapshot, hexport⟩ := Migrator.exportLog_of_verify hverified
      refine ⟨snapshot, ?_, Migrator.migrationIndex_of_exportLog hexport⟩
      refine (congrArg Prod.fst (m.exportSnapshot_finalize _ _)).trans ?_
      exact Migrator.exportSnapshot_eq_ok_iff.2 ⟨_, hgives, hexport⟩
    · refine Migrator.reimports_of_gives fun log' hgives' => ?_
      obtain rfl := hgives.unique hgives'
      rw [hsame]
      exact hcreations henter hload
  · obtain ⟨s, henter, hload⟩ := hgives
    exact hcreations henter hload

/-- A directory exports a log as it is read from the text that finalize wrote. -/
theorem exportSnapshot_of_reread {directory s : LogDirectory} {log after : EventLog} {report : Report}
    (henter : EventStore.enter .write directory = (.ok (), s)) (hload : EventStore.load s = .ok log)
    (hpending : m.chain.pending log.migrationIndex m.latest ≠ [])
    (hok : (m.migrateLog now m.latest log s).result = .ok report)
    (htext : ∀ positions, runInOrder m.registry now
      (m.chain.pending log.migrationIndex m.latest) log.positions = .ok positions →
        EventLog.ofText? ((EventLog.toJson ⟨m.latest, positions⟩).pretty 0) = some after)
    (hproblem : after.problem? = none) (config : Config) :
    let done := m.finalize now directory
    done.result = .ok report ∧
      (done.migrator.exportSnapshot config done.store).1 = m.exportLog config after := by
  intro done
  have hdone : (m.migrateTo now m.latest directory).result = .ok report := by
    rw [Migrator.migrateTo, henter]
    simp only [hload, hok]
  obtain ⟨s', log', positions, henter', hload', -, hrun, -, hstore⟩ :=
    Migrator.exists_of_migrateTo_ok hdone
  obtain rfl : s = s' := congrArg Prod.snd (henter.symm.trans henter')
  obtain rfl : log = log' := Except.ok.inj (hload.symm.trans hload')
  rw [if_neg hpending] at hstore
  refine ⟨hdone, (congrArg Prod.fst (m.exportSnapshot_finalize _ _)).trans ?_⟩
  exact Migrator.exportSnapshot_of_gives
    (LogDirectory.gives_of_reread henter hstore (htext positions hrun) hproblem)

/-- One collection of models with a weight that has a least value. -/
def gadgetModels : String :=
  "gadget:\n  id:\n    type: number\n    required: true\n  weight:\n    type: float\n" ++
    "    minimum: 5.850324529815226e-10\n"

def gadgets : Registry := (Registry.ofText gadgetModels).toOption.getD ⟨∅⟩

theorem gadgets_of_any {p : Registry → Bool}
    (h : (Registry.ofText gadgetModels).toOption.any p = true) :
    Registry.ofText gadgetModels = .ok gadgets ∧ p gadgets = true := by
  obtain ⟨r, hr, hp⟩ := exists_eq_ok_of_any h
  have hgadgets : gadgets = r := by
    rw [gadgets, hr]
    rfl
  exact ⟨hgadgets ▸ hr, hgadgets ▸ hp⟩

theorem ofText_gadgetModels : Registry.ofText gadgetModels = .ok gadgets := by
  have hread : (Registry.ofText gadgetModels).toOption.any (fun _ => true) = true := by
    rw [Registry.ofText, Yaml.parse?, toList_of_eq_ofList (s := gadgetModels)
      (append_eq_ofList rfl rfl)]
    decide +kernel
  exact (gadgets_of_any hread).1

def oneGadget : MemoryStore := .ofLog ⟨1, [⟨1, 1, none, [.create ⟨"gadget", 1⟩ ∅]⟩]⟩

theorem finalize_oneGadget :
    ∃ report, ((⟨gadgets, .standard⟩ : Migrator).finalize 0 oneGadget).result = .ok report := by
  have hread : (Registry.ofText gadgetModels).toOption.any (fun r =>
      ((⟨r, .standard⟩ : Migrator).finalize 0 oneGadget).result.toOption.isSome) = true := by
    rw [Registry.ofText, Yaml.parse?, toList_of_eq_ofList (s := gadgetModels)
      (append_eq_ofList rfl rfl)]
    decide +kernel
  exact exists_eq_ok (gadgets_of_any hread).2

theorem finalized_log_exports_of_oneGadget :
    let m : Migrator := ⟨gadgets, .standard⟩
    let done := m.finalize 0 oneGadget
    ∃ s, (done.migrator.exportSnapshot { mode := .all } done.store).1 = .ok s ∧
      Snapshot.ofJson s.toJson = .ok s := by
  have hnames : EventStore.HoldsReadable oneGadget := by
    intro mode s log henter hload
    change (Except.ok (), oneGadget) = (Except.ok (), s) at henter
    cases henter
    change Except.ok oneGadget.log = Except.ok log at hload
    cases hload
    decide +kernel
  have hkeeps : ({ mode := .all } : Config).KeepsIds := nofun
  have hall (r : Registry)
      (hok : ∃ report, ((⟨r, .standard⟩ : Migrator).finalize 0 oneGadget).result = .ok report) :
      let m : Migrator := ⟨r, .standard⟩
      let done := m.finalize 0 oneGadget
      ∃ s, (done.migrator.exportSnapshot { mode := .all } done.store).1 = .ok s ∧
        Snapshot.ofJson s.toJson = .ok s := by
    intro m done
    obtain ⟨⟨s, hexport, -⟩, hreimports⟩ := (finalized_log_exports r 0 oneGadget hnames
      (Migrator.isKept_memory _ _ _ _)).1 hok
    refine ⟨s, hexport, (hreimports _ hkeeps s ?_).1⟩
    rwa [← m.exportSnapshot_finalize]
  exact hall gadgets finalize_oneGadget

/-- The text of a log with one gadget, the weight of which is one step above the least value. -/
def gadgetText : String :=
  "\x7b\"migration_index\": 1, \"positions\": [\x7b\"position\": 1, \"timestamp\": 1, " ++
    "\"events\": [\x7b\"type\": \"create\", \"fqid\": \"gadget/1\", " ++
    "\"fields\": \x7b\"weight\": 5.850324529815227e-10\x7d\x7d]\x7d]\x7d"

def gadgetDirectory : LogDirectory :=
  ⟨(Disk.empty.put ["log"] .directory).put ["log", "events.json"] (.file gadgetText), "log"⟩

/-- The text of the log after its migration, with the least weight. -/
def gadgetTextAfter : String :=
  "\x7b\n  \"migration_index\": 4,\n  \"positions\": [\n    \x7b\n      \"events\": [\n" ++
    "        \x7b\n          \"fields\": \x7b\n            \"weight\": 5.850324529815226e-10\n" ++
    "          \x7d,\n          \"fqid\": \"gadget/1\",\n          \"type\": \"create\"\n" ++
    "        \x7d\n      ],\n      \"position\": 1,\n      \"timestamp\": 1\n    \x7d\n  ]\n\x7d"

def gadgetDirectoryLocked : LogDirectory := (gadgetDirectory.enter .write).2

/-- A log is migrated, and what is written then is the other text. -/
def WritesAfter (m : Migrator) (log : EventLog) : Prop :=
  m.chain.pending log.migrationIndex m.latest ≠ [] ∧
    (∃ report, (m.migrateLog 0 m.latest log gadgetDirectoryLocked).result = .ok report) ∧
    ∀ positions, runInOrder m.registry 0 (m.chain.pending log.migrationIndex m.latest)
      log.positions = .ok positions →
        (EventLog.toJson ⟨m.latest, positions⟩).pretty 0 = gadgetTextAfter

set_option maxRecDepth 1000 in
theorem exists_gadgetLog : ∃ log, EventLog.ofText? gadgetText = some log ∧ log.problem? = none ∧
    WritesAfter ⟨gadgets, .standard⟩ log := by
  have hread : (Registry.ofText gadgetModels).toOption.any (fun r =>
      let m : Migrator := ⟨r, .standard⟩
      (EventLog.ofText? gadgetText).any fun log => log.problem?.isNone &&
        !(m.chain.pending log.migrationIndex m.latest).isEmpty &&
        (m.migrateLog 0 m.latest log gadgetDirectoryLocked).result.toOption.isSome &&
        (runInOrder m.registry 0 (m.chain.pending log.migrationIndex m.latest)
          log.positions).toOption.all fun positions =>
            (EventLog.toJson ⟨m.latest, positions⟩).pretty 0 == gadgetTextAfter) = true := by
    rw [Registry.ofText, Yaml.parse?, toList_of_eq_ofList (s := gadgetModels)
      (append_eq_ofList rfl rfl), EventLog.ofText?, Json.read?,
      toList_of_eq_ofList (s := gadgetText) (append_eq_ofList (append_eq_ofList rfl rfl) rfl)]
    decide +kernel
  have hgadgets := (gadgets_of_any hread).2
  generalize gadgets = r at hgadgets ⊢
  obtain ⟨log, hlog, hall⟩ := (Option.any_eq_true ..).1 hgadgets
  simp only [Bool.and_eq_true, Option.isNone_iff_eq_none, Bool.not_eq_true',
    List.isEmpty_eq_false_iff] at hall
  obtain ⟨⟨⟨hproblem, hpending⟩, hresult⟩, hwritten⟩ := hall
  refine ⟨log, hlog, hproblem, hpending, exists_eq_ok hresult, fun positions hrun => ?_⟩
  rw [hrun] at hwritten
  exact beq_iff_eq.1 hwritten

set_option maxRecDepth 1000 in
/-- The log as which the other text is read does not pass the check. -/
theorem exists_gadgetLogAfter : ∃ log, EventLog.ofText? gadgetTextAfter = some log ∧
    log.problem? = none ∧
    ((⟨gadgets, .standard⟩ : Migrator).exportLog { mode := .all } log).toOption = none := by
  have hread : (Registry.ofText gadgetModels).toOption.any (fun r =>
      (EventLog.ofText? gadgetTextAfter).any fun log => log.problem?.isNone &&
        ((⟨r, .standard⟩ : Migrator).exportLog { mode := .all } log).toOption.isNone) = true := by
    rw [Registry.ofText, Yaml.parse?, toList_of_eq_ofList (s := gadgetModels)
      (append_eq_ofList rfl rfl), EventLog.ofText?, Json.read?,
      toList_of_eq_ofList (s := gadgetTextAfter)
        (append_eq_ofList (append_eq_ofList (append_eq_ofList rfl rfl) rfl) rfl)]
    decide +kernel
  have hgadgets := (gadgets_of_any hread).2
  generalize gadgets = r at hgadgets ⊢
  obtain ⟨log, hlog, hall⟩ := (Option.any_eq_true ..).1 hgadgets
  simpa [hlog] using hall

/-- The weight loses a step each time it is read from its text, so that it passes the check before
the log is written and does not pass it afterwards. -/
theorem gadgetDirectory_is_not_exported :
    let m : Migrator := ⟨gadgets, .standard⟩
    let done := m.finalize 0 gadgetDirectory
    Registry.ofText gadgetModels = .ok gadgets ∧ EventStore.HoldsReadable gadgetDirectory ∧
      (∃ report, done.result = .ok report) ∧
      ¬ ∃ s, (done.migrator.exportSnapshot { mode := .all } done.store).1 = .ok s := by
  obtain ⟨log, hlog, hproblem, hpending, ⟨report, hok⟩, hwritten⟩ := exists_gadgetLog
  obtain ⟨after, hafter, hproblem', hrefused⟩ := exists_gadgetLogAfter
  have henter : EventStore.enter .write gadgetDirectory = (.ok (), gadgetDirectoryLocked) := rfl
  have hload : EventStore.load gadgetDirectoryLocked = .ok log :=
    LogDirectory.load_eq_ok_iff.2 ⟨gadgetText, rfl, hlog, hproblem⟩
  obtain ⟨hdone, hexported⟩ := exportSnapshot_of_reread henter hload hpending hok
    (fun positions hrun => (hwritten positions hrun).symm ▸ hafter) hproblem' { mode := .all }
  refine ⟨ofText_gadgetModels, gadgetDirectory.holdsReadable, ⟨report, hdone⟩, ?_⟩
  rintro ⟨s, hs⟩
  rw [hexported.symm.trans hs] at hrefused
  cases hrefused

end Finalized

end Migration

end MeetingLedger
