import MeetingLedger.Proofs.Ledger.Decoded
import MeetingLedger.Proofs.Storage.Disk
import MeetingLedger.Storage.LogDirectory

/-!
# What stores give their readers

It is the log that they gave a writer, and after a log was written, it is this log in memory, and in a
directory it is what the JSON text of the log is read as. Writers find the same.
-/

namespace MeetingLedger.Storage

namespace EventStore

variable {σ : Type} [EventStore σ]

def Gives (s : σ) (log : EventLog) : Prop :=
  ∃ s', enter .read s = (.ok (), s') ∧ load s' = .ok log

theorem Gives.unique {s : σ} {log log' : EventLog} (h : Gives s log) (h' : Gives s log') :
    log = log' := by
  obtain ⟨t, henter, hload⟩ := h
  obtain ⟨t', henter', hload'⟩ := h'
  obtain rfl : t = t' := congrArg Prod.snd (henter.symm.trans henter')
  exact Except.ok.inj (hload.symm.trans hload')

/-- The names of the models in every log that a store gives, to readers or writers, can be read. -/
def HoldsReadable (s : σ) : Prop :=
  ∀ mode s' log, enter mode s = (.ok (), s') → load s' = .ok log →
    ∀ p ∈ log.positions, ∀ e ∈ p.events, e.fqid.IsReadable

/-- How stores of a kind hold logs. A store that holds a log lets a writer in, who finds this log and
can replace it by every well-formed log and by no other. It then holds the new log if this one is exact:
what is written for it is read as the same log. -/
structure Holding (σ : Type) [EventStore σ] where
  Holds : σ → EventLog → Prop
  Exact : EventLog → Prop
  enters {s : σ} {log : EventLog} (held : Holds s log) :
    ∃ s', enter .write s = (.ok (), s') ∧ load s' = .ok log ∧ Holds s' log
  takes {s s' : σ} {log new : EventLog} (held : Holds s log)
    (entered : enter .write s = (.ok (), s')) (wellFormed : new.problem? = none) :
    ∃ s'', replace new s' = (.ok (), s'') ∧ (Exact new → Holds s'' new)
  refuses {s s' : σ} {log new : EventLog} (held : Holds s log)
    (entered : enter .write s = (.ok (), s')) (malformed : new.problem? ≠ none) :
    ∃ e s'', replace new s' = (.error e, s'')

end EventStore

namespace MemoryStore

theorem gives_log (s : MemoryStore) : EventStore.Gives s s.log := ⟨s, rfl, rfl⟩

theorem gives_of_replace {s s' : MemoryStore} {log : EventLog}
    (h : s.replace log = (.ok (), s')) : EventStore.Gives s' log := by
  rw [replace] at h
  split at h
  · cases h
  · cases h
    exact gives_log _

theorem replace_eq {log : EventLog} (h : log.problem? = none) (s : MemoryStore) :
    s.replace log = (.ok (), ⟨log, s.writes + 1⟩) := by
  rw [replace, h]

theorem exists_of_problem {log : EventLog} (h : log.problem? ≠ none) (s : MemoryStore) :
    ∃ e, s.replace log = (.error e, s) := by
  obtain ⟨p, hp⟩ := Option.ne_none_iff_exists'.1 h
  rw [replace, hp]
  exact ⟨_, rfl⟩

def holding : EventStore.Holding MemoryStore where
  Holds s log := s.log = log
  Exact _ := True
  enters {s log} held := ⟨s, rfl, congrArg _ held, held⟩
  takes {s s' log new} _ _ wellFormed := ⟨_, replace_eq wellFormed s', fun _ => rfl⟩
  refuses {s s' log new} _ _ malformed := by
    obtain ⟨e, he⟩ := exists_of_problem malformed s'
    exact ⟨e, s', he⟩

end MemoryStore

namespace LogDirectory

variable {s s' s'' : LogDirectory} {mode : LockMode} {log : EventLog}

theorem enter_eq_ok_iff : s.enter mode = (.ok (), s') ↔
    ∃ g d, s.disk.lock s.lockPath mode = (.ok g, d) ∧ s' = { s with disk := d.unlock g } := by
  rw [enter]
  rcases s.disk.lock s.lockPath mode with ⟨_ | g, d⟩
  · simp
  · simp only [Prod.mk.injEq, true_and, Except.ok.injEq]
    exact ⟨fun h => ⟨g, d, ⟨rfl, rfl⟩, h.symm⟩, fun ⟨_, _, ⟨hg, hd⟩, h⟩ => by rw [h, hg, hd]⟩

theorem grows_enter (h : s.enter mode = (.ok (), s')) :
    s'.path = s.path ∧ s.disk.Grows s'.disk := by
  obtain ⟨g, d, hlock, rfl⟩ := enter_eq_ok_iff.1 h
  exact ⟨rfl, Disk.grows_unlock hlock⟩

theorem exists_enter_again (h : s.enter .write = (.ok (), s')) (hpath : s''.path = s.path)
    (hkeeps : s'.disk.KeepsKinds s''.disk) (mode : LockMode) :
    ∃ s₃, s''.enter mode = (.ok (), s₃) := by
  obtain ⟨g, d, hlock, rfl⟩ := enter_eq_ok_iff.1 h
  obtain ⟨g', d', hagain⟩ := Disk.exists_lock_again hlock hkeeps mode
  rw [lockPath, ← hpath] at hagain
  exact ⟨_, enter_eq_ok_iff.2 ⟨g', d', hagain, rfl⟩⟩

theorem load_eq_ok_iff : s.load = .ok log ↔
    ∃ text, s.disk.read s.eventsPath = .ok text ∧ EventLog.ofText? text = some log ∧
      log.problem? = none := by
  rw [load]
  cases hread : s.disk.read s.eventsPath with
  | error p => cases p <;> simp
  | ok text =>
    cases htext : EventLog.ofText? text with
    | none => simp [htext]
    | some log' =>
      cases hproblem : log'.problem? with
      | none =>
        simp only [hproblem, Except.ok.injEq, exists_eq_left', htext, Option.some.injEq]
        exact ⟨fun h => ⟨h, h ▸ hproblem⟩, And.left⟩
      | some p =>
        simp only [hproblem, reduceCtorEq, Except.ok.injEq, exists_eq_left', htext,
          Option.some.injEq, false_iff, not_and]
        rintro rfl
        simp [hproblem]

theorem load_of_grows (hpath : s'.path = s.path) (hgrows : s.disk.Grows s'.disk)
    (h : s.load = .ok log) : s'.load = .ok log := by
  obtain ⟨text, hread, htext, hproblem⟩ := load_eq_ok_iff.1 h
  refine load_eq_ok_iff.2 ⟨text, ?_, htext, hproblem⟩
  rw [eventsPath, hpath]
  exact hgrows.read hread

theorem snd_approach_eventsPath (s : LogDirectory) : (Disk.approach s.eventsPath).2 = false := by
  obtain ⟨names, hsteps⟩ := @Disk.exists_steps_join s.path "events.json" (by decide)
  exact Disk.snd_approach (by decide) hsteps

/-- Whoever enters a directory as a reader after a writer finds the log that is there by then. -/
theorem gives_of_load (henter : s.enter .write = (.ok (), s')) (hpath : s''.path = s.path)
    (hkeeps : s'.disk.KeepsKinds s''.disk) (hload : s''.load = .ok log) :
    EventStore.Gives s'' log := by
  obtain ⟨s₃, hagain⟩ := exists_enter_again henter hpath hkeeps .read
  obtain ⟨hpath₃, hgrows⟩ := grows_enter hagain
  exact ⟨s₃, hagain, load_of_grows hpath₃ hgrows hload⟩

/-- Readers find the log that a writer found. -/
theorem gives_of_enter (henter : s.enter .write = (.ok (), s')) (hload : s'.load = .ok log) :
    EventStore.Gives s' log :=
  gives_of_load henter (grows_enter henter).1 (Disk.Grows.refl _).toKeepsKinds hload

theorem problem?_of_replace (hreplace : s'.replace log = (.ok (), s'')) : log.problem? = none := by
  rw [replace] at hreplace
  cases hproblem : log.problem? with
  | some p => simp [hproblem] at hreplace
  | none => rfl

theorem gives_of_reread {log' : EventLog} (henter : s.enter .write = (.ok (), s'))
    (hreplace : s'.replace log = (.ok (), s''))
    (htext : EventLog.ofText? (log.toJson.pretty 0) = some log') (hproblem : log'.problem? = none) :
    EventStore.Gives s'' log' := by
  rw [replace, problem?_of_replace hreplace] at hreplace
  dsimp only at hreplace
  cases hwrite : s'.disk.write s'.eventsPath (log.toJson.pretty 0) with
  | error p => simp [hwrite] at hreplace
  | ok d =>
    rw [hwrite] at hreplace
    obtain rfl : { s' with disk := d } = s'' := congrArg Prod.snd hreplace
    obtain ⟨place, -, hfile, rfl⟩ := Disk.exists_of_write hwrite
    refine gives_of_load henter (grows_enter henter).1 (Disk.keepsKinds_put hfile _) ?_
    exact load_eq_ok_iff.2 ⟨_, Disk.read_write hwrite, htext, hproblem⟩

theorem gives_of_replace (henter : s.enter .write = (.ok (), s'))
    (hreplace : s'.replace log = (.ok (), s''))
    (htext : EventLog.ofText? (log.toJson.pretty 0) = some log) : EventStore.Gives s'' log :=
  gives_of_reread henter hreplace htext (problem?_of_replace hreplace)

/-- A log that writers find in a directory. -/
def Holds (s : LogDirectory) (log : EventLog) : Prop :=
  s.load = .ok log ∧ ∃ s', s.enter .write = (.ok (), s')

theorem Holds.of_load (henter : s.enter .write = (.ok (), s')) (hpath : s''.path = s.path)
    (hkeeps : s'.disk.KeepsKinds s''.disk) (hload : s''.load = .ok log) : s''.Holds log :=
  ⟨hload, exists_enter_again henter hpath hkeeps .write⟩

/-- A directory that holds a log takes every well-formed one, and holds what the JSON text of this one
is read as. -/
theorem Holds.replace (h : s.Holds log) (henter : s.enter .write = (.ok (), s')) {new : EventLog}
    (hproblem : new.problem? = none) :
    ∃ s'', s'.replace new = (.ok (), s'') ∧ ∀ reread, reread.problem? = none →
      EventLog.ofText? (new.toJson.pretty 0) = some reread → s''.Holds reread := by
  obtain ⟨hpath, hgrows⟩ := grows_enter henter
  obtain ⟨text, hread, -, -⟩ := load_eq_ok_iff.1 (load_of_grows hpath hgrows h.1)
  obtain ⟨d, hwrite⟩ :=
    Disk.exists_write hread (snd_approach_eventsPath s') (new.toJson.pretty 0)
  refine ⟨{ s' with disk := d }, ?_, fun reread hproblem' htext => ?_⟩
  · rw [LogDirectory.replace, hproblem]
    simp only [hwrite]
  · obtain ⟨place, -, hfile, rfl⟩ := Disk.exists_of_write hwrite
    refine .of_load henter hpath (Disk.keepsKinds_put hfile _) ?_
    exact load_eq_ok_iff.2 ⟨_, Disk.read_write hwrite, htext, hproblem'⟩

/-- A log is exact in a directory if its JSON text is read as this log. -/
def holding : EventStore.Holding LogDirectory where
  Holds := Holds
  Exact log := EventLog.ofText? (log.toJson.pretty 0) = some log
  enters {s log} held := by
    obtain ⟨hload, s', henter⟩ := held
    obtain ⟨hpath, hgrows⟩ := grows_enter henter
    have hload' := load_of_grows hpath hgrows hload
    exact ⟨s', henter, hload', .of_load henter hpath (Disk.Grows.refl _).toKeepsKinds hload'⟩
  takes {s s' log new} held entered wellFormed := by
    obtain ⟨s'', hreplace, hheld⟩ := Holds.replace held entered wellFormed
    exact ⟨s'', hreplace, hheld new wellFormed⟩
  refuses {s s' log new} _ _ malformed := by
    obtain ⟨p, hp⟩ := Option.ne_none_iff_exists'.1 malformed
    refine ⟨.malformed p, s', ?_⟩
    change s'.replace new = _
    rw [LogDirectory.replace, hp]

theorem holdsReadable (s : LogDirectory) : EventStore.HoldsReadable s := by
  intro mode s' log _ hload
  obtain ⟨text, -, htext, -⟩ := load_eq_ok_iff.1 hload
  exact EventLog.isReadable_of_ofText? htext

end LogDirectory

end MeetingLedger.Storage
