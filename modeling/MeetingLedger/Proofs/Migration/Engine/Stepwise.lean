import MeetingLedger.Proofs.Migration.Engine.Registered

/-!
# Migrations in several stages

A migration that stops at an index and is taken up again from there ends where the migration in one
go ends. Only a model step looks at the clock, to stamp the position that it appends, and in the
standard chain it comes last: all steps before it depend on the log alone, and leave a log that can
be written.
-/

namespace MeetingLedger.Migration

open Schema Storage

/-- Positions that depend on the time of the migration at most by the stamp of one position that a
model step appended to them. -/
inductive Stamped : (Int64 → List Position) → Prop
  | untouched (positions : List Position) : Stamped fun _ => positions
  | appended (positions : List Position) (events : List Event) :
      Stamped fun now => appendPosition positions now events

namespace Stamped

variable {positions : Int64 → List Position}

/-- A stamp is not replayed. -/
theorem replay (h : Stamped positions) (now now' : Int64) :
    History.replay (positions now) = History.replay (positions now') := by
  cases h with
  | untouched positions => rfl
  | appended positions events => simp [History.replay, appendPosition]

theorem verifyAt (h : Stamped positions) (m : Migrator) (target : UInt64) (now now' : Int64) :
    m.verifyAt target (positions now) = m.verifyAt target (positions now') := by
  rw [Migrator.verifyAt, Migrator.verifyAt, verify, verify, h.replay now now']

theorem problem? (h : Stamped positions) (index : UInt64) (now now' : Int64) :
    (⟨index, positions now⟩ : EventLog).problem? =
      (⟨index, positions now'⟩ : EventLog).problem? := by
  cases h with
  | untouched positions => rfl
  | appended positions events =>
    have hlast (previous : UInt64) (front : List Position) {p q : Position}
        (hnumber : p.position = q.position) (hevents : p.events = q.events) :
        EventLog.firstProblem? previous (front ++ [p]) =
          EventLog.firstProblem? previous (front ++ [q]) := by
      induction front generalizing previous with
      | nil => simp [EventLog.firstProblem?, hnumber, hevents]
      | cons d front ih => simp [EventLog.firstProblem?, ih]
    exact hlast 0 positions rfl rfl

end Stamped

section Written

theorem firstProblem?_cons_eq_none_iff {previous : UInt64} {p : Position} {ps : List Position} :
    EventLog.firstProblem? previous (p :: ps) = none ↔
      previous < p.position ∧ p.events.isEmpty = false ∧
        EventLog.firstProblem? p.position ps = none := by
  rw [EventLog.firstProblem?]
  split
  · rename_i hle
    exact ⟨nofun, fun h => absurd h.1 (UInt64.not_lt.2 hle)⟩
  · rename_i hlt
    split
    · rename_i hempty
      exact ⟨nofun, fun h => absurd (hempty.symm.trans h.2.1) nofun⟩
    · rename_i hevents
      rw [Bool.not_eq_true] at hevents
      exact ⟨fun h => ⟨UInt64.not_le.1 hlt, hevents, h⟩, fun h => h.2.2⟩

theorem firstProblem?_eq_none_of_le {previous number : UInt64} {ps : List Position}
    (hle : previous ≤ number) (h : EventLog.firstProblem? number ps = none) :
    EventLog.firstProblem? previous ps = none := by
  cases ps with
  | nil => rfl
  | cons p ps =>
    rw [firstProblem?_cons_eq_none_iff] at h ⊢
    exact ⟨UInt64.lt_of_le_of_lt hle h.1, h.2⟩

/-- An event step leaves the numbers of positions in order and no position empty. -/
theorem EventStep.Migrates.firstProblem? {step : EventStep} {h h' : History} {s t : step.State}
    {ps out : List Position} (hrun : step.Migrates h s ps h' t out) {previous : UInt64}
    (hps : EventLog.firstProblem? previous ps = none) :
    EventLog.firstProblem? previous out = none := by
  induction hrun generalizing previous with
  | nil => rfl
  | @cons h h₁ h₂ s s₁ s₂ p ps out events position applied rest ih =>
    obtain ⟨hnumber, -, hrest⟩ := firstProblem?_cons_eq_none_iff.1 hps
    cases hempty : events.isEmpty with
    | true => exact ih (firstProblem?_eq_none_of_le (UInt64.le_of_lt hnumber) hrest)
    | false => exact firstProblem?_cons_eq_none_iff.2 ⟨hnumber, hempty, ih hrest⟩

end Written

section Steps

variable (r : Registry) {steps : List Step}

def Step.isEvent : Step → Bool
  | .event _ => true
  | .model _ => false

theorem fst_run_event (step : EventStep) (now : Int64) (positions : List Position) :
    ((Step.event step).run r now positions).1 = (step.run r positions).1 := rfl

theorem fst_run_model (step : ModelStep) (now : Int64) (positions : List Position) :
    ((Step.model step).run r now positions).1 = (step.run now positions).1 := rfl

theorem runInOrder_of_isEvent (h : ∀ s ∈ steps, s.isEvent = true) (now now' : Int64)
    (positions : List Position) :
    runInOrder r now steps positions = runInOrder r now' steps positions := by
  induction steps generalizing positions with
  | nil => rfl
  | cons s steps ih =>
    cases s with
    | event step =>
      rw [runInOrder, runInOrder, fst_run_event, fst_run_event]
      cases (step.run r positions).1 with
      | error e => rfl
      | ok positions => exact ih (fun s hs => h s (List.mem_cons_of_mem _ hs)) positions
    | model step => cases h _ List.mem_cons_self

theorem firstProblem?_runInOrder (h : ∀ s ∈ steps, s.isEvent = true) {now : Int64}
    {positions out : List Position} (hpositions : EventLog.firstProblem? 0 positions = none)
    (hrun : runInOrder r now steps positions = .ok out) :
    EventLog.firstProblem? 0 out = none := by
  induction steps generalizing positions with
  | nil =>
    cases hrun
    exact hpositions
  | cons s steps ih =>
    cases s with
    | event step =>
      obtain ⟨next, hstep, hrun⟩ := (runInOrder_cons_eq_ok_iff r now).1 hrun
      obtain ⟨h', t, hmigrates, -⟩ := EventStep.migrates_of_run hstep
      exact ih (fun s hs => h s (List.mem_cons_of_mem _ hs)) (hmigrates.firstProblem? hpositions)
        hrun
    | model step => cases h _ List.mem_cons_self

/-- A model step looks at the clock only for the stamp of the position that it appends. -/
theorem ModelStep.run_stamped (step : ModelStep) (positions : List Position) :
    (∃ e, ∀ now, (step.run now positions).1 = .error e) ∨
      ∃ out, Stamped out ∧ ∀ now, (step.run now positions).1 = .ok (out now) := by
  cases hreplay : History.replay positions with
  | error e => exact .inl ⟨_, fun _ => run_of_replay_error hreplay⟩
  | ok h =>
    simp only [run_of_replay hreplay]
    cases (step.migrateModels h step.state).result with
    | error e => exact .inl ⟨e, fun _ => rfl⟩
    | ok requests =>
      simp only [Except.bind]
      split
      · exact .inr ⟨_, .untouched positions, fun _ => rfl⟩
      · split
        · exact .inl ⟨_, fun _ => rfl⟩
        · split
          · exact .inr ⟨_, .appended positions _, fun _ => rfl⟩
          · exact .inl ⟨_, fun _ => rfl⟩

/-- Steps of which only the last may be a model step look at the clock only for a stamp. -/
theorem runInOrder_stamped {last : List Step} (h : ∀ s ∈ steps, s.isEvent = true)
    (hlast : last.length ≤ 1) (positions : List Position) :
    (∃ e, ∀ now, runInOrder r now (steps ++ last) positions = .error e) ∨
      ∃ out, Stamped out ∧ ∀ now, runInOrder r now (steps ++ last) positions = .ok (out now) := by
  simp only [runInOrder_append, runInOrder_of_isEvent r h _ 0]
  cases runInOrder r 0 steps positions with
  | error e => exact .inl ⟨e, fun _ => rfl⟩
  | ok positions =>
    match last, hlast with
    | [], _ => exact .inr ⟨_, .untouched positions, fun _ => rfl⟩
    | [.event step], _ =>
      simp only [Except.bind, runInOrder, fst_run_event]
      cases (step.run r positions).1 with
      | error e => exact .inl ⟨_, fun _ => rfl⟩
      | ok out => exact .inr ⟨_, .untouched out, fun _ => rfl⟩
    | [.model step], _ =>
      simp only [Except.bind, runInOrder, fst_run_model]
      rcases step.run_stamped positions with ⟨e, he⟩ | ⟨out, hout, hrun⟩
      · exact .inl ⟨_, fun now => by rw [he]⟩
      · exact .inr ⟨out, hout, fun now => by rw [hrun]⟩

end Steps

namespace Chain

theorem filter_isPending_append {steps : List Step}
    (hsteps : steps.Pairwise fun s s' => s.target < s'.target) {current mid target : UInt64}
    (hcurrent : current ≤ mid) (hmid : mid ≤ target) :
    steps.filter (·.isPending current target) =
      steps.filter (·.isPending current mid) ++ steps.filter (·.isPending mid target) := by
  induction steps with
  | nil => rfl
  | cons s steps ih =>
    obtain ⟨hfirst, hrest⟩ := List.pairwise_cons.1 hsteps
    by_cases hs : s.target ≤ mid
    · have hback : s.isPending mid target = false := by
        simp [Step.isPending, UInt64.not_lt.2 hs]
      have hfront : s.isPending current target = s.isPending current mid := by
        simp [Step.isPending, hs, UInt64.le_trans hs hmid]
      simp only [List.filter_cons, hfront, hback, ih hrest]
      split
      · rfl
      · rfl
    · -- this step and all after it lead beyond the index on the way
      have hbeyond : ∀ s' ∈ s :: steps, mid < s'.target := by
        intro s' hs'
        rcases List.mem_cons.1 hs' with rfl | hs'
        · exact UInt64.not_le.1 hs
        · exact UInt64.lt_trans (UInt64.not_le.1 hs) (hfirst s' hs')
      have hfront : (s :: steps).filter (·.isPending current mid) = [] := by
        apply List.filter_eq_nil_iff.2
        intro s' hs'
        simp [Step.isPending, UInt64.not_le.2 (hbeyond s' hs')]
      rw [hfront, List.nil_append]
      apply List.filter_congr
      intro s' hs'
      have hlt := hbeyond s' hs'
      simp [Step.isPending, hlt, UInt64.lt_of_le_of_lt hcurrent hlt]

theorem pairwise_standardSteps :
    standardSteps.Pairwise fun s s' => s.target < s'.target := by
  decide

/-- In the standard chain the last step alone is a model step. -/
theorem pending_standard (current target : UInt64) :
    ∃ front last, standard.pending current target = front ++ last ∧
      (∀ s ∈ front, s.isEvent = true) ∧ last.length ≤ 1 := by
  let events : List Step := [.event CommitteeManagement.step, .event ColorNormalization.step]
  let last : List Step := [.model FileInheritance.step]
  have happend := List.filter_append (p := (·.isPending current target)) events last
  refine ⟨_, _, happend, ?_, List.length_filter_le _ last⟩
  intro s hs
  have hmem : s ∈ events := (List.mem_filter.1 hs).1
  simp only [events, List.mem_cons, List.not_mem_nil, or_false] at hmem
  rcases hmem with rfl | rfl
  · rfl
  · rfl

theorem isEvent_of_mem_pending_standard {current target : UInt64}
    (htarget : target < standard.latest) :
    ∀ s ∈ standard.pending current target, s.isEvent = true := by
  intro s hs
  obtain ⟨hmem, hpending⟩ := List.mem_filter.1 hs
  rw [Step.isPending, Bool.and_eq_true, decide_eq_true_eq, decide_eq_true_eq] at hpending
  change s ∈ standardSteps at hmem
  simp only [standardSteps, List.mem_cons, List.not_mem_nil, or_false] at hmem
  rcases hmem with rfl | rfl | rfl
  · rfl
  · rfl
  · exact absurd htarget (UInt64.not_lt.2 hpending.2)

end Chain

namespace Migrator

section Stages

variable {m m' : Migrator} {now now₁ now₂ : Int64} {mid target : UInt64} {store : MemoryStore}
  {positions : List Position}

theorem verifyAt_migrateTo : (m.migrateTo now mid store).migrator.verifyAt = m.verifyAt := by
  funext target positions
  rw [verifyAt, verifyAt, registry_migrateTo, latest_migrateTo]

theorem pending_migrateTo
    (hsteps : m.chain.steps.Pairwise fun s s' => s.target < s'.target)
    (hcurrent : store.log.migrationIndex ≤ mid) (hmid : mid ≤ target)
    (h : m.Succeeds now mid store positions)
    (hm' : m' = m ∨ m' = (m.migrateTo now mid store).migrator) :
    m'.chain.pending (m.migrateTo now mid store).store.log.migrationIndex target =
      m.chain.pending mid target := by
  rw [h.store_eq, h.log_storeOf]
  have happend : m.chain.pending store.log.migrationIndex target = _ :=
    Chain.filter_isPending_append hsteps hcurrent hmid
  by_cases hnone : m.chain.pending store.log.migrationIndex mid = []
  · have hsame : m'.chain.steps = m.chain.steps := by
      rcases hm' with rfl | rfl
      · rfl
      · rcases m.migrator_migrateTo now mid store with hafter | hafter
        · rw [hafter]
        · rw [hafter]
          exact snd_runPending_of_none _ _ _ _ hnone _
    simp only [hnone, if_true]
    rw [Chain.pending, hsame]
    refine happend.trans ?_
    rw [show m.chain.steps.filter _ = [] from hnone, List.nil_append]
    rfl
  · simp only [hnone, if_false]
    rcases hm' with rfl | rfl
    · rfl
    · rcases m.migrator_migrateTo now mid store with hafter | hafter
      · rw [hafter]
      · rw [hafter]
        exact filter_runPending _ _ _ _ (UInt64.le_refl _) _ _ _

theorem succeeds_after_iff
    (hsteps : m.chain.steps.Pairwise fun s s' => s.target < s'.target)
    (hcurrent : store.log.migrationIndex ≤ mid) (hmid : mid ≤ target)
    (h : m.Succeeds now₁ mid store positions)
    (hm' : m' = m ∨ m' = (m.migrateTo now₁ mid store).migrator) {positions' : List Position} :
    m'.Succeeds now₂ target (m.migrateTo now₁ mid store).store positions' ↔
      target ≤ m.latest ∧
      runInOrder m.registry now₂ (m.chain.pending mid target) positions = .ok positions' ∧
      m.verifyAt target positions' = .ok () ∧
      (m.chain.pending mid target ≠ [] →
        (⟨target, positions'⟩ : EventLog).problem? = none) := by
  have hpending := pending_migrateTo hsteps hcurrent hmid h hm'
  have hlog := (congrArg (·.log) h.store_eq).trans h.log_storeOf
  have hpositions : (m.migrateTo now₁ mid store).store.log.positions = positions :=
    congrArg (·.positions) hlog
  have hindex : (m.migrateTo now₁ mid store).store.log.migrationIndex ≤ target := by
    refine UInt64.le_trans ?_ hmid
    rw [show (m.migrateTo now₁ mid store).store.log.migrationIndex = _ from
      congrArg (·.migrationIndex) hlog]
    dsimp only
    split
    · exact hcurrent
    · exact UInt64.le_refl mid
  have hkept : m'.registry = m.registry ∧ m'.latest = m.latest ∧ m'.verifyAt = m.verifyAt := by
    rcases hm' with rfl | rfl
    · exact ⟨rfl, rfl, rfl⟩
    · exact ⟨registry_migrateTo, latest_migrateTo, verifyAt_migrateTo⟩
  obtain ⟨hregistry, hlatest, hverifyAt⟩ := hkept
  constructor
  · rintro ⟨hreachable, hrun, hverified, hwritable⟩
    rw [hpending, hpositions, hregistry] at hrun
    rw [hverifyAt] at hverified
    rw [hpending] at hwritable
    exact ⟨hlatest ▸ (targetProblem?_eq_none_iff.1 hreachable).2, hrun, hverified, hwritable⟩
  · rintro ⟨htarget, hrun, hverified, hwritable⟩
    refine ⟨targetProblem?_eq_none_iff.2 ⟨hindex, hlatest ▸ htarget⟩, ?_, ?_, ?_⟩
    · rw [hpending, hpositions, hregistry]
      exact hrun
    · rw [hverifyAt]
      exact hverified
    · rw [hpending]
      exact hwritable

end Stages

section Standard

variable {r : Registry} {now now₁ now₂ : Int64} {mid target : UInt64} {store : MemoryStore}
  {positions : List Position}

/-- A migration along the standard chain looks at the clock only for a stamp. -/
theorem Succeeds.stamped (h : (⟨r, .standard⟩ : Migrator).Succeeds now target store positions) :
    ∃ out, Stamped out ∧ out now = positions ∧
      ∀ now', (⟨r, .standard⟩ : Migrator).Succeeds now' target store (out now') := by
  obtain ⟨front, last, hpending, hfront, hlast⟩ :=
    Chain.pending_standard store.log.migrationIndex target
  have hrun := h.run
  rw [hpending] at hrun
  rcases runInOrder_stamped r hfront hlast store.log.positions with ⟨e, he⟩ | ⟨out, hout, hok⟩
  · cases (he now).symm.trans hrun
  · have hpositions : out now = positions := Except.ok.inj ((hok now).symm.trans hrun)
    refine ⟨out, hout, hpositions, fun now' => ⟨h.reachable, ?_, ?_, fun hsome => ?_⟩⟩
    · rw [hpending]
      exact hok now'
    · rw [hout.verifyAt _ _ now' now, hpositions]
      exact h.verified
    · rw [hout.problem? _ now' now, hpositions]
      exact h.writable hsome

theorem Succeeds.log_second (hcurrent : store.log.migrationIndex ≤ mid) (hmid : mid ≤ target)
    {m m' : Migrator} (hm : m = ⟨r, .standard⟩)
    (hm' : m' = m ∨ m' = (m.migrateTo now₁ mid store).migrator) {positions' : List Position}
    (h₁ : m.Succeeds now₁ mid store positions')
    (h₂ : m'.Succeeds now₂ target (m.migrateTo now₁ mid store).store positions) :
    (m'.migrateTo now₂ target (m.migrateTo now₁ mid store).store).store.log =
      ⟨if Chain.standard.pending store.log.migrationIndex target = [] then
        store.log.migrationIndex else target, positions⟩ := by
  subst hm
  have htarget := ((succeeds_after_iff Chain.pairwise_standardSteps hcurrent hmid h₁ hm').1 h₂).1
  have happend : Chain.standard.pending store.log.migrationIndex target =
      Chain.standard.pending store.log.migrationIndex mid ++ Chain.standard.pending mid target :=
    Chain.filter_isPending_append Chain.pairwise_standardSteps hcurrent hmid
  rw [h₂.store_eq, h₂.log_storeOf,
    pending_migrateTo Chain.pairwise_standardSteps hcurrent hmid h₁ hm', h₁.store_eq,
    h₁.log_storeOf]
  by_cases hfront : Chain.standard.pending store.log.migrationIndex mid = []
  · rw [hfront, List.nil_append] at happend
    simp only [hfront, happend, if_true]
  · have hsome : Chain.standard.pending store.log.migrationIndex target ≠ [] := by
      rw [happend]
      exact List.append_ne_nil_of_left_ne_nil hfront _
    simp only [hfront, hsome, if_false]
    by_cases hback : Chain.standard.pending mid target = []
    · -- the first stage made a step, so it got to the chain, where no index is left out
      obtain ⟨s, hs⟩ := List.exists_mem_of_ne_nil _ hfront
      have hpending := (List.mem_filter.1 hs).2
      rw [Step.isPending, Bool.and_eq_true, decide_eq_true_eq, decide_eq_true_eq] at hpending
      have hpositive : (0 : UInt64) < mid :=
        UInt64.lt_of_le_of_lt (UInt64.zero_le) (UInt64.lt_of_lt_of_le hpending.1 hpending.2)
      have hfirst : firstIndex ≤ mid := by
        rw [UInt64.lt_iff_toNat_lt] at hpositive
        rw [UInt64.le_iff_toNat_le]
        exact hpositive
      have htargets := Chain.targets_pending Chain.ofSteps_standardSteps (.inl hfirst) hmid htarget
      rw [hback] at htargets
      simp only [hback, if_true]
      rw [Chain.eq_of_nothing_between hmid htargets]
    · simp only [hback, if_false]

/-- A first stage that does not reach the end of the standard chain leaves to the second one just
what a migration in one go does after it. -/
theorem succeeds_early_iff (hlog : store.log.problem? = none)
    (hcurrent : store.log.migrationIndex ≤ mid) (hmid : mid ≤ target)
    (hearly : mid < Chain.standard.latest) {m m' : Migrator} (hm : m = ⟨r, .standard⟩)
    (hm' : m' = m ∨ m' = (m.migrateTo now₁ mid store).migrator) :
    (∃ positions', m.Succeeds now₁ mid store positions') ∧
        m'.Succeeds now₂ target (m.migrateTo now₁ mid store).store positions ↔
      m.Succeeds now₂ target store positions := by
  subst hm
  have hevents : ∀ s ∈ Chain.standard.pending store.log.migrationIndex mid, s.isEvent = true :=
    Chain.isEvent_of_mem_pending_standard hearly
  have happend : Chain.standard.pending store.log.migrationIndex target =
      Chain.standard.pending store.log.migrationIndex mid ++ Chain.standard.pending mid target :=
    Chain.filter_isPending_append Chain.pairwise_standardSteps hcurrent hmid
  have hdirect : runInOrder r now₂ (Chain.standard.pending store.log.migrationIndex target)
      store.log.positions =
        (runInOrder r now₁ (Chain.standard.pending store.log.migrationIndex mid)
          store.log.positions).bind (runInOrder r now₂ (Chain.standard.pending mid target)) := by
    rw [happend, runInOrder_append, runInOrder_of_isEvent r hevents now₂ now₁]
  constructor
  · rintro ⟨⟨positions', h₁⟩, h₂⟩
    obtain ⟨htarget, hrun, hverified, hwritable⟩ :=
      (succeeds_after_iff Chain.pairwise_standardSteps hcurrent hmid h₁ hm').1 h₂
    refine ⟨targetProblem?_eq_none_iff.2 ⟨UInt64.le_trans hcurrent hmid, htarget⟩, ?_, hverified,
      fun _ => ?_⟩
    · rw [hdirect, h₁.run]
      exact hrun
    · by_cases hback : Chain.standard.pending mid target = []
      · rw [hback] at hrun
        obtain rfl : positions' = positions := Except.ok.inj hrun
        exact firstProblem?_runInOrder r hevents hlog h₁.run
      · exact hwritable hback
  · intro h
    have htarget := (targetProblem?_eq_none_iff.1 h.reachable).2
    have hrun := h.run
    rw [hdirect] at hrun
    cases hfirst : runInOrder r now₁ (Chain.standard.pending store.log.migrationIndex mid)
        store.log.positions with
    | error e =>
      rw [hfirst] at hrun
      cases hrun
    | ok positions' =>
      rw [hfirst] at hrun
      have h₁ : (⟨r, .standard⟩ : Migrator).Succeeds now₁ mid store positions' := by
        constructor
        · exact targetProblem?_eq_none_iff.2 ⟨hcurrent, UInt64.le_of_lt hearly⟩
        · exact hfirst
        · exact if_neg (UInt64.ne_of_lt hearly)
        · exact fun _ => firstProblem?_runInOrder r hevents hlog hfirst
      refine ⟨⟨positions', h₁⟩,
        (succeeds_after_iff Chain.pairwise_standardSteps hcurrent hmid h₁ hm').2
          ⟨htarget, hrun, h.verified, fun hback => h.writable ?_⟩⟩
      rw [happend]
      exact List.append_ne_nil_of_right_ne_nil _ hback

/-- A first stage that reaches the target leaves nothing to the second one. -/
theorem succeeds_late_iff (hcurrent : store.log.migrationIndex ≤ mid) {m m' : Migrator}
    (hm : m = ⟨r, .standard⟩) (hm' : m' = m ∨ m' = (m.migrateTo now₁ mid store).migrator) :
    (∃ positions', m.Succeeds now₁ mid store positions') ∧
        m'.Succeeds now₂ mid (m.migrateTo now₁ mid store).store positions ↔
      m.Succeeds now₁ mid store positions := by
  subst hm
  have hreached {positions' positions'' : List Position}
      (h₁ : (⟨r, .standard⟩ : Migrator).Succeeds now₁ mid store positions') :
      m'.Succeeds now₂ mid ((⟨r, .standard⟩ : Migrator).migrateTo now₁ mid store).store positions'' ↔
        positions' = positions'' := by
    rw [succeeds_after_iff Chain.pairwise_standardSteps hcurrent (UInt64.le_refl mid) h₁ hm',
      Chain.pending_self]
    constructor
    · rintro ⟨-, hrun, -⟩
      exact Except.ok.inj hrun
    · rintro rfl
      exact ⟨(targetProblem?_eq_none_iff.1 h₁.reachable).2, rfl, h₁.verified, fun h => absurd rfl h⟩
  constructor
  · rintro ⟨⟨positions', h₁⟩, h₂⟩
    obtain rfl := (hreached h₁).1 h₂
    exact h₁
  · intro h
    exact ⟨⟨positions, h⟩, (hreached h).2 rfl⟩

end Standard

/-- A migration along the standard chain in two stages succeeds exactly if it succeeds in one go,
and the logs that they write differ at most in the stamp of one position that a model step
appended. -/
theorem migrateTo_in_stages_of_memory {r : Registry} {mid target : UInt64} {store : MemoryStore}
    (hlog : store.log.problem? = none) (hcurrent : store.log.migrationIndex ≤ mid)
    (hmid : mid ≤ target) (htarget : target ≤ Chain.standard.latest) (now₁ now₂ : Int64) :
    let m : Migrator := ⟨r, .standard⟩
    let first := m.migrateTo now₁ mid store
    ∀ m' ∈ [m, first.migrator],
      let second := m'.migrateTo now₂ target first.store
      let staged := (∃ report, first.result = .ok report) ∧ ∃ report, second.result = .ok report
      (∀ now, staged ↔ ∃ report, (m.migrateTo now target store).result = .ok report) ∧
      (staged → ∃ index positions, Stamped positions ∧
        (∃ stamp, (stamp = now₁ ∨ stamp = now₂) ∧
          second.store.log = ⟨index, positions stamp⟩) ∧
        ∀ now, (m.migrateTo now target store).store.log = ⟨index, positions now⟩) := by
  intro m first m' hm' second staged
  replace hm' : m' = m ∨ m' = first.migrator := by
    simpa only [List.mem_cons, List.not_mem_nil, or_false] using hm'
  have hstaged : staged ↔ ∃ positions, (∃ positions', m.Succeeds now₁ mid store positions') ∧
      m'.Succeeds now₂ target first.store positions := by
    rw [exists_and_left]
    exact and_congr exists_succeeds_iff exists_succeeds_iff
  obtain ⟨stamp, hstamp, hiff⟩ : ∃ stamp, (stamp = now₁ ∨ stamp = now₂) ∧ ∀ positions,
      (∃ positions', m.Succeeds now₁ mid store positions') ∧
        m'.Succeeds now₂ target first.store positions ↔
      m.Succeeds stamp target store positions := by
    by_cases hearly : mid < Chain.standard.latest
    · exact ⟨now₂, .inr rfl, fun _ => succeeds_early_iff hlog hcurrent hmid hearly rfl hm'⟩
    · obtain rfl : mid = target := by
        apply UInt64.le_antisymm hmid
        exact UInt64.le_trans htarget (UInt64.not_lt.1 hearly)
      exact ⟨now₁, .inl rfl, fun _ => succeeds_late_iff hcurrent rfl hm'⟩
  constructor
  · intro now
    rw [hstaged, exists_succeeds_iff]
    constructor
    · rintro ⟨positions, h⟩
      obtain ⟨out, -, -, hall⟩ := ((hiff positions).1 h).stamped
      exact ⟨out now, hall now⟩
    · rintro ⟨positions, h⟩
      obtain ⟨out, -, -, hall⟩ := h.stamped
      exact ⟨out stamp, (hiff _).2 (hall stamp)⟩
  · intro hok
    obtain ⟨positions, ⟨positions', h₁⟩, h₂⟩ := hstaged.1 hok
    obtain ⟨out, hout, rfl, hall⟩ := ((hiff positions).1 ⟨⟨positions', h₁⟩, h₂⟩).stamped
    refine ⟨_, out, hout, ⟨stamp, hstamp, Succeeds.log_second hcurrent hmid rfl hm' h₁ h₂⟩, ?_⟩
    intro now
    exact (congrArg (·.log) (hall now).store_eq).trans (hall now).log_storeOf

end Migrator

end MeetingLedger.Migration
