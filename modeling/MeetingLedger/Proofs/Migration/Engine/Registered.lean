import MeetingLedger.Proofs.Migration.Run
import MeetingLedger.Proofs.Migration.Engine.Pending

/-!
# Migrations that skip no index

The targets of a chain count up from the index after the first one, so the pending steps lead to
every index between that of a log and the target, one step to each. A log at an index below the
first one is let through as well, although no step leads to the first index.
-/

namespace MeetingLedger.Migration

open Schema Storage

theorem filter_range' {first count low high : Nat} (hlow : first ≤ low + 1) (hle : low ≤ high)
    (hhigh : high < first + count) :
    (List.range' first count).filter (fun n => decide (low < n) && decide (n ≤ high)) =
      List.range' (low + 1) (high - low) := by
  have hfront := List.range'_append_1 (s := first) (m := low + 1 - first) (n := high - low)
  rw [show first + (low + 1 - first) = low + 1 by omega] at hfront
  have hback := List.range'_append_1 (s := first) (m := low + 1 - first + (high - low))
    (n := first + count - (high + 1))
  rw [show first + (low + 1 - first + (high - low)) = high + 1 by omega, ← hfront,
    show low + 1 - first + (high - low) + (first + count - (high + 1)) = count by omega] at hback
  have hout {a n : Nat} (h : a + n ≤ low + 1 ∨ high < a) : (List.range' a n).filter
      (fun n => decide (low < n) && decide (n ≤ high)) = [] := by
    apply List.filter_eq_nil_iff.2
    intro k hk
    have hbounds := List.mem_range'_1.1 hk
    rw [Bool.and_eq_true, decide_eq_true_eq, decide_eq_true_eq]
    omega
  have hin : (List.range' (low + 1) (high - low)).filter
      (fun n => decide (low < n) && decide (n ≤ high)) = List.range' (low + 1) (high - low) := by
    apply List.filter_eq_self.2
    intro k hk
    have hbounds := List.mem_range'_1.1 hk
    rw [Bool.and_eq_true, decide_eq_true_eq, decide_eq_true_eq]
    omega
  rw [← hback, List.filter_append, List.filter_append, hin, hout (.inl (by omega)),
    hout (.inr (by omega)), List.nil_append, List.append_nil]

namespace Chain

theorem register_eq_ok {c c' : Chain} {s : Step} (h : c.register s = .ok c') :
    (∀ s' ∈ c.steps, s'.target ≠ s.target) ∧ s.target = c.latest + 1 ∧
      c'.steps = c.steps ++ [s] := by
  rw [register] at h
  split at h
  · cases h
  · rename_i hnew
    split at h
    · rename_i hnext
      cases h
      refine ⟨fun s' hs' heq => hnew ?_, hnext, rfl⟩
      exact List.any_eq_true.2 ⟨s', hs', beq_iff_eq.2 heq⟩
    · cases h

theorem latest_eq_of_steps {c : Chain} {front : List Step} {s : Step}
    (h : c.steps = front ++ [s]) : c.latest = s.target := by
  simp [latest, h]

/-- The targets of a chain count up from the index after the first one. -/
structure CountsUp (c : Chain) : Prop where
  targets : c.steps.map (·.target.toNat) = List.range' (firstIndex.toNat + 1) c.steps.length
  latest : c.latest.toNat = firstIndex.toNat + c.steps.length

/-- The targets of a chain have used up all numbers of 64 bits and started over from zero. Before
they reach the one after the first index, it is taken. -/
structure StartsOver (c : Chain) : Prop where
  taken : ∃ s ∈ c.steps, s.target = firstIndex + 1
  latest : c.latest ≤ firstIndex

theorem CountsUp.register {c c' : Chain} {s : Step} (hc : c.CountsUp)
    (h : c.register s = .ok c') : c'.CountsUp ∨ c'.StartsOver := by
  obtain ⟨-, hnext, hsteps⟩ := register_eq_ok h
  have hlatest : c'.latest = s.target := latest_eq_of_steps hsteps
  have htarget : s.target.toNat = (firstIndex.toNat + c.steps.length + 1) % UInt64.size := by
    rw [hnext, UInt64.toNat_add, hc.latest]
    rfl
  by_cases hfits : firstIndex.toNat + c.steps.length + 1 < UInt64.size
  · rw [Nat.mod_eq_of_lt hfits] at htarget
    left
    constructor
    · rw [hsteps, List.map_append, hc.targets, List.length_append, List.length_singleton,
        List.range'_concat, List.map_singleton, htarget]
      congr 2
      omega
    · rw [hlatest, htarget, hsteps, List.length_append, List.length_singleton]
      rfl
  · right
    have hbound := c.latest.toNat_lt_size
    rw [hc.latest] at hbound
    have hwraps : firstIndex.toNat + c.steps.length + 1 = UInt64.size := by omega
    rw [hwraps, Nat.mod_self] at htarget
    constructor
    · cases hfirst : c.steps with
      | nil =>
        rw [hfirst] at hwraps
        cases hwraps
      | cons first rest =>
        have htargets := hc.targets
        rw [hfirst, List.map_cons, List.length_cons, List.range'_succ] at htargets
        refine ⟨first, by simp [hsteps, hfirst], UInt64.toNat_inj.1 ?_⟩
        exact (List.cons.inj htargets).1
    · rw [hlatest, UInt64.le_iff_toNat_le, htarget]
      exact Nat.zero_le _

theorem StartsOver.register {c c' : Chain} {s : Step} (hc : c.StartsOver)
    (h : c.register s = .ok c') : c'.StartsOver := by
  obtain ⟨hnew, hnext, hsteps⟩ := register_eq_ok h
  obtain ⟨taken, hmem, htaken⟩ := hc.taken
  constructor
  · exact ⟨taken, by simp [hsteps, hmem], htaken⟩
  · have hne : c.latest ≠ firstIndex := by
      intro heq
      apply hnew taken hmem
      rw [htaken, hnext, heq]
    have hzero : c.latest < firstIndex := UInt64.lt_of_le_of_ne hc.latest hne
    have hlatest : c'.latest = s.target := latest_eq_of_steps hsteps
    rw [hlatest, hnext, UInt64.le_iff_toNat_le, UInt64.toNat_add]
    have hlt : c.latest.toNat < 1 := UInt64.lt_iff_toNat_lt.1 hzero
    have hvalue : c.latest.toNat = 0 := by omega
    rw [hvalue]
    decide

/-- A chain that steps were added to one by one counts up, unless it is too long for that. -/
theorem countsUp_or_startsOver {steps : List Step} {c : Chain} (h : ofSteps steps = .ok c) :
    c.CountsUp ∨ c.StartsOver := by
  suffices ∀ front : Chain, front.CountsUp ∨ front.StartsOver →
      steps.foldlM register front = .ok c → c.CountsUp ∨ c.StartsOver from
    this empty (.inl ⟨rfl, rfl⟩) h
  clear h
  induction steps with
  | nil =>
    intro front hfront hc
    cases hc
    exact hfront
  | cons s steps ih =>
    intro front hfront hc
    rw [List.foldlM_cons] at hc
    cases hregister : front.register s with
    | error e =>
      rw [hregister] at hc
      cases hc
    | ok next =>
      rw [hregister] at hc
      apply ih next _ hc
      cases hfront with
      | inl hup => exact hup.register hregister
      | inr hover => exact .inr (hover.register hregister)

theorem pending_self (c : Chain) (index : UInt64) : c.pending index index = [] := by
  apply List.filter_eq_nil_iff.2
  intro s _ hpending
  rw [Step.isPending, Bool.and_eq_true, decide_eq_true_eq, decide_eq_true_eq] at hpending
  exact UInt64.not_lt.2 hpending.2 hpending.1

theorem CountsUp.targets_pending {c : Chain} (hc : c.CountsUp) {current target : UInt64}
    (hfirst : firstIndex ≤ current) (hcurrent : current ≤ target) (htarget : target ≤ c.latest) :
    (c.pending current target).map (·.target.toNat) =
      List.range' (current.toNat + 1) (target.toNat - current.toNat) := by
  rw [UInt64.le_iff_toNat_le] at hfirst hcurrent htarget
  rw [hc.latest] at htarget
  have hpending : c.pending current target = c.steps.filter
      ((fun n => decide (current.toNat < n) && decide (n ≤ target.toNat)) ∘ (·.target.toNat)) := by
    apply List.filter_congr
    intro s _
    simp [Step.isPending, UInt64.lt_iff_toNat_lt, UInt64.le_iff_toNat_le]
  rw [hpending, ← List.filter_map, hc.targets]
  exact filter_range' (by omega) hcurrent (by omega)

/-- The pending steps of a chain lead to each index between that of a log and the target, one to
each, in order. -/
theorem targets_pending {steps : List Step} {c : Chain} (h : ofSteps steps = .ok c)
    {current target : UInt64} (hfirst : firstIndex ≤ current ∨ target = 0)
    (hcurrent : current ≤ target) (htarget : target ≤ c.latest) :
    (c.pending current target).map (·.target.toNat) =
      List.range' (current.toNat + 1) (target.toNat - current.toNat) := by
  by_cases hsame : current = target
  · subst hsame
    rw [pending_self, Nat.sub_self]
    rfl
  · have hlt : current < target := UInt64.lt_of_le_of_ne hcurrent hsame
    have hreached : firstIndex ≤ current := by
      apply hfirst.resolve_right
      rintro rfl
      exact UInt64.not_lt_zero hlt
    cases countsUp_or_startsOver h with
    | inl hup => exact hup.targets_pending hreached hcurrent htarget
    | inr hover =>
      have hbelow : target ≤ current :=
        UInt64.le_trans htarget (UInt64.le_trans hover.latest hreached)
      exact absurd hlt (UInt64.not_lt.2 hbelow)

theorem ofSteps_standardSteps : ofSteps standardSteps = .ok standard := rfl

theorem eq_of_nothing_between {current target : UInt64} (hcurrent : current ≤ target)
    (h : ([] : List Step).map (·.target.toNat) =
      List.range' (current.toNat + 1) (target.toNat - current.toNat)) : current = target := by
  have hlength := congrArg List.length h
  rw [List.map_nil, List.length_nil, List.length_range'] at hlength
  rw [UInt64.le_iff_toNat_le] at hcurrent
  apply UInt64.toNat_inj.1
  omega

end Chain

namespace Migrator

theorem migrateTo_again {m : Migrator} {now : Int64} {target : UInt64} {store : MemoryStore}
    (hindex : store.log.migrationIndex = target) (hlatest : target ≤ m.latest)
    (hverified : m.verifyAt target store.log.positions = .ok ()) :
    ∃ report, (m.migrateTo now target store).result = .ok report ∧ report.applied = [] ∧
      (m.migrateTo now target store).store = store := by
  subst hindex
  have hnone := m.chain.pending_self store.log.migrationIndex
  have hsucceeds : m.Succeeds now store.log.migrationIndex store store.log.positions := by
    constructor
    · exact targetProblem?_eq_none_iff.2 ⟨UInt64.le_refl _, hlatest⟩
    · rw [hnone]
      rfl
    · exact hverified
    · exact fun h => absurd hnone h
  refine ⟨_, hsucceeds.result_eq, ?_, ?_⟩
  · simp [reportOf, hnone]
  · simp [hsucceeds.store_eq, storeOf, hnone]

/-- A migration reaches its target from any index of the chain: it applies one step for each index
on the way, in order, and another one to the same target finds nothing to do. -/
theorem migrateTo_skips_nothing {steps : List Step} {m : Migrator} {now : Int64} {target : UInt64}
    {store : MemoryStore} {report : Report} (hchain : Chain.ofSteps steps = .ok m.chain)
    (hindex : firstIndex ≤ store.log.migrationIndex ∨ target = 0)
    (hresult : (m.migrateTo now target store).result = .ok report) :
    let after := m.migrateTo now target store
    after.store.log.migrationIndex = target ∧ report.target = target ∧
      (∃ applied : List Step, applied.Sublist m.chain.steps ∧
        report.applied = applied.map Step.name ∧
        applied.map (·.target.toNat) = List.range' (store.log.migrationIndex.toNat + 1)
          (target.toNat - store.log.migrationIndex.toNat) ∧
        runInOrder m.registry now applied store.log.positions = .ok after.store.log.positions) ∧
      ∀ m' ∈ [m, after.migrator], ∀ now', ∃ report',
        (m'.migrateTo now' target after.store).result = .ok report' ∧ report'.applied = [] ∧
          (m'.migrateTo now' target after.store).store = after.store := by
  intro after
  obtain ⟨positions, h⟩ := exists_succeeds_iff.1 ⟨report, hresult⟩
  obtain rfl : m.reportOf target store positions = report :=
    Except.ok.inj (h.result_eq.symm.trans hresult)
  obtain ⟨hcurrent, hlatest⟩ := targetProblem?_eq_none_iff.1 h.reachable
  have htargets := Chain.targets_pending hchain hindex hcurrent hlatest
  have hlog : after.store.log = _ := (congrArg (·.log) h.store_eq).trans h.log_storeOf
  have hpositions : after.store.log.positions = positions := congrArg (·.positions) hlog
  have hreached : after.store.log.migrationIndex = target := by
    refine (congrArg (·.migrationIndex) hlog).trans ?_
    dsimp only
    split
    · rename_i hnone
      rw [hnone] at htargets
      exact Chain.eq_of_nothing_between hcurrent htargets
    · rfl
  have hverified : m.verifyAt target after.store.log.positions = .ok () := by
    rw [hpositions]
    exact h.verified
  refine ⟨hreached, rfl, ⟨_, List.filter_sublist, rfl, htargets, ?_⟩, fun m' hm' now' => ?_⟩
  · rw [hpositions]
    exact h.run
  · simp only [List.mem_cons, List.not_mem_nil, or_false] at hm'
    rcases hm' with rfl | rfl
    · exact migrateTo_again hreached hlatest hverified
    · apply migrateTo_again hreached
      · rw [latest_migrateTo]
        exact hlatest
      · rw [verifyAt, registry_migrateTo, latest_migrateTo]
        exact hverified

def oneTopic (index : UInt64) : MemoryStore :=
  .ofLog ⟨index, [⟨1, 0, none, [.create ⟨"topic", 1⟩ ∅]⟩]⟩

/-- The standard steps with nothing to check against. -/
def unchecked : Migrator := ⟨⟨∅⟩, .standard⟩

theorem migrateTo_skips_nothing_of_oneTopic :
    ∃ report, (unchecked.migrateTo 0 3 (oneTopic 1)).result = .ok report ∧
      (unchecked.migrateTo 0 3 (oneTopic 1)).store.log.migrationIndex = 3 ∧ report.target = 3 ∧
      ∃ applied : List Step, applied.Sublist Chain.standardSteps ∧
        report.applied = applied.map Step.name ∧ applied.map (·.target.toNat) = [2, 3] := by
  obtain ⟨report, hresult⟩ := exists_eq_ok (x := (unchecked.migrateTo 0 3 (oneTopic 1)).result)
    (by decide +kernel)
  obtain ⟨hindex, htarget, ⟨applied, hsublist, hnames, htargets, -⟩, -⟩ :=
    migrateTo_skips_nothing Chain.ofSteps_standardSteps (.inl (by decide)) hresult
  exact ⟨report, hresult, hindex, htarget, applied, hsublist, hnames, htargets⟩

/-- Below the first index nothing leads to the first index: the migration reports that it is
reached and leaves the log where it was. -/
theorem zeroIndex_reports_index_not_reached :
    ∃ report, (unchecked.migrateTo 0 1 (oneTopic 0)).result = .ok report ∧ report.target = 1 ∧
      (unchecked.migrateTo 0 1 (oneTopic 0)).store.log.migrationIndex = 0 := by
  refine ⟨⟨0, 1, [], 1, false⟩, ?_, rfl, ?_⟩
  · rfl
  · rfl

end Migrator

end MeetingLedger.Migration
