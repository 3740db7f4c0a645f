import MeetingLedger.Proofs.Migration.Engine.Stepwise
import MeetingLedger.Proofs.Migration.Inheritance.Cycles
import MeetingLedger.Schema.Declaration

/-!
# Numbers of appended positions

Event steps give positions no new numbers. The position that the model step of the standard chain
appends gets the number after the last one. A well-formed log may have used up all numbers of 64 bits,
and then the program stops although every step got to its end.
-/

namespace MeetingLedger

/-- The number of the last of some positions that follow a given number. -/
def lastNumber (previous : UInt64) (positions : List Position) : UInt64 :=
  (positions.getLast?.map (·.position)).getD previous

theorem lastNumber_cons (previous : UInt64) (p : Position) (ps : List Position) :
    lastNumber previous (p :: ps) = lastNumber p.position ps := by
  rw [lastNumber, lastNumber, List.getLast?_cons]
  cases ps.getLast? <;> rfl

namespace EventLog

theorem firstProblem?_append (previous : UInt64) (front back : List Position) :
    firstProblem? previous (front ++ back) =
      (firstProblem? previous front).or (firstProblem? (lastNumber previous front) back) := by
  induction front generalizing previous with
  | nil => rfl
  | cons p front ih =>
    rw [List.cons_append, firstProblem?, firstProblem?, lastNumber_cons]
    split
    · rfl
    · split
      · rfl
      · exact ih p.position

end EventLog

namespace Migration

open Schema Storage

section Appending

variable {positions : List Position}

theorem hasNextNumber_iff :
    hasNextNumber positions = true ↔ (lastNumber 0 positions).toNat + 1 < UInt64.size := by
  rw [hasNextNumber, lastNumber]
  cases positions.getLast? with
  | none => decide
  | some p => simp

theorem appendPosition_eq (positions : List Position) (now : Int64) (events : List Event) :
    appendPosition positions now events =
      positions ++ [⟨lastNumber 0 positions + 1, now, none, events⟩] := by
  rw [appendPosition, lastNumber]
  cases positions.getLast? <;> rfl

theorem toNat_add_one_of_lt {number : UInt64} (h : number.toNat + 1 < UInt64.size) :
    (number + 1).toNat = number.toNat + 1 := by
  rw [UInt64.toNat_add]
  exact Nat.mod_eq_of_lt h

/-- One more position makes a well-formed log of a well-formed one. -/
theorem firstProblem?_append_next (h : EventLog.firstProblem? 0 positions = none)
    {p : Position} (hevents : p.events ≠ [])
    (hnumber : p.position.toNat = (lastNumber 0 positions).toNat + 1) :
    EventLog.firstProblem? 0 (positions ++ [p]) = none := by
  rw [EventLog.firstProblem?_append, h, Option.none_or, EventLog.firstProblem?]
  have hlt : lastNumber 0 positions < p.position := by
    rw [UInt64.lt_iff_toNat_lt, hnumber]
    exact Nat.lt_succ_self _
  rw [if_neg (UInt64.not_le.2 hlt), if_neg (mt List.isEmpty_iff.1 hevents)]
  rfl

end Appending

section EventSteps

theorem Outcome.andThen_ne_overflow {σ α β : Type} {o : Outcome σ α} {next : α → σ → Outcome σ β}
    (ho : o.result ≠ .error .overflow) (hnext : ∀ a s, (next a s).result ≠ .error .overflow) :
    (o.andThen next).result ≠ .error .overflow := by
  rcases o with ⟨e | a, s⟩
  · rintro ⟨⟩
    exact ho rfl
  · exact hnext a s

theorem Outcome.done_ne_overflow {σ α : Type} (a : α) (s : σ) :
    (done a s).result ≠ .error .overflow := nofun

/-- An event step overflows only if it says so itself: it appends no position. -/
theorem EventStep.run_ne_overflow {step : EventStep}
    (hevent : ∀ e h s, (step.migrateEvent e h s).result ≠ .error .overflow)
    (hmore : ∀ h s, (step.additionalEvents h s).result ≠ .error .overflow) (r : Registry)
    (ps : List Position) : (step.run r ps).1 ≠ .error .overflow := by
  have hevents (h : History) (es : List Event) (s : step.State) :
      (step.migrateEvents h es s).result ≠ .error .overflow := by
    induction es generalizing s with
    | nil => exact Outcome.done_ne_overflow [] s
    | cons e es ih =>
      refine Outcome.andThen_ne_overflow (hevent e h s) fun replacement s => ?_
      exact Outcome.andThen_ne_overflow (ih s) fun rest s => Outcome.done_ne_overflow _ s
  have hposition (h : History) (p : Position) (s : step.State) :
      (step.migratePosition h p s).result ≠ .error .overflow := by
    refine Outcome.andThen_ne_overflow (hevents h p.events _) fun events s => ?_
    exact Outcome.andThen_ne_overflow (hmore h s) fun more s => Outcome.done_ne_overflow _ s
  have hpositions (h : History) (s : step.State) :
      (step.migratePositions h ps s).result ≠ .error .overflow := by
    induction ps generalizing h s with
    | nil => exact Outcome.done_ne_overflow [] s
    | cons p ps ih =>
      refine Outcome.andThen_ne_overflow (hposition h p s) fun events s => ?_
      rcases h.applyAll events with ⟨h', _ | e⟩
      · exact Outcome.andThen_ne_overflow (ih h' s) fun rest s => Outcome.done_ne_overflow _ s
      · exact nofun
  exact hpositions .empty _

namespace CommitteeManagement

theorem readLevel_ne_overflow (user : Fqid) (field : String) (v : Json) :
    readLevel user field v ≠ .error .overflow := by
  rw [readLevel.eq_def]
  split
  · exact nofun
  · split <;> exact nofun

theorem migrateFields_ne_overflow (user : Fqid) (fields : Instance) (isCreation : Bool)
    (h : History) (s : State) :
    (migrateFields user fields isCreation h s).result ≠ .error .overflow := by
  rw [migrateFields.eq_def]
  split
  · rename_i e hlevels
    intro herror
    obtain rfl : e = .overflow := Except.error.inj herror
    have heach (e : String × Json) := readLevel_ne_overflow user e.1 e.2
    exact mapM_ne_error heach fields.entries hlevels
  · dsimp only
    split
    · exact Outcome.done_ne_overflow none s
    · split
      · exact Outcome.done_ne_overflow _ s
      · exact Outcome.done_ne_overflow _ _

theorem migrateEvent_ne_overflow (e : Event) (h : History) (s : State) :
    (migrateEvent e h s).result ≠ .error .overflow := by
  rw [migrateEvent.eq_def]
  split
  · cases e with
    | create f fields =>
      exact Outcome.andThen_ne_overflow (migrateFields_ne_overflow f fields true h s)
        fun r s => Outcome.done_ne_overflow _ s
    | update f fields =>
      exact Outcome.andThen_ne_overflow (migrateFields_ne_overflow f fields false h s)
        fun r s => Outcome.done_ne_overflow _ s
    | listUpdate f add remove => exact Outcome.done_ne_overflow _ s
    | delete f => exact Outcome.done_ne_overflow none _
    | restore f => exact Outcome.done_ne_overflow none _
  · split
    · split
      · exact Outcome.done_ne_overflow none _
      · exact Outcome.done_ne_overflow none s
    · exact Outcome.done_ne_overflow none s

end CommitteeManagement

theorem ColorNormalization.migrateEvent_ne_overflow (e : Event) (h : History) (s : ColorFields) :
    (migrateEvent e h s).result ≠ .error .overflow := by
  cases e <;> exact Outcome.done_ne_overflow _ s

theorem FileInheritance.migrateModels_ne_overflow (h : History) :
    migrateModels h ≠ .error .overflow := by
  intro hmigrate
  rcases bind_eq_error_iff.1 hmigrate with hresolve | ⟨known, -, hdone⟩
  · rcases Tree.resolveAll_cases (Tree.isClosed_ofHistory h) with ⟨known, hok, -⟩ | ⟨id, -, hcycle⟩
    · cases hok.symm.trans hresolve
    · cases hcycle.symm.trans hresolve
  · cases hdone

theorem runInOrder_ne_overflow (r : Registry) (now : Int64) {steps : List Step}
    (hsteps : ∀ s ∈ steps, s ∈ Chain.standardSteps ∧ s.isEvent = true) {target : UInt64}
    {name : String} (positions : List Position) :
    runInOrder r now steps positions ≠ .error (.step target name .overflow) := by
  induction steps generalizing positions with
  | nil => exact nofun
  | cons s steps ih =>
    obtain ⟨hmem, hevent⟩ := hsteps s List.mem_cons_self
    have hrun : (s.run r now positions).1 ≠ .error .overflow := by
      simp only [Chain.standardSteps, List.mem_cons, List.not_mem_nil, or_false] at hmem
      rcases hmem with rfl | rfl | rfl
      · exact EventStep.run_ne_overflow CommitteeManagement.migrateEvent_ne_overflow
          (fun h s => Outcome.done_ne_overflow _ _) r positions
      · exact EventStep.run_ne_overflow ColorNormalization.migrateEvent_ne_overflow
          (fun h s => Outcome.done_ne_overflow _ _) r positions
      · cases hevent
    rw [runInOrder]
    cases hresult : (s.run r now positions).1 with
    | error e =>
      rintro ⟨⟩
      exact hrun hresult
    | ok positions => exact ih (fun s hs => hsteps s (List.mem_cons_of_mem _ hs)) positions

end EventSteps

section Standard

/-- The failure of the standard chain when no number is left for a new position. -/
def outOfNumbers : MigrationError := .step 4 "meeting_mediafile_inheritance" .overflow

/-- All steps of the standard chain that lead from the index of a log to a target succeed: the event
steps leave some positions, and to these the model step, if it is one of them, asks for changes that
apply. -/
structure StepsSucceed (r : Registry) (now : Int64) (target : UInt64) (log : EventLog)
    (kept : List Position) (requests : List ModelChange) : Prop where
  events : runInOrder r now
    ((Chain.standard.pending log.migrationIndex target).filter Step.isEvent) log.positions = .ok kept
  models : if log.migrationIndex < 4 ∧ 4 ≤ target then
      ∃ h, History.replay kept = .ok h ∧ FileInheritance.migrateModels h = .ok requests ∧
        (h.applyAll (requests.map ModelChange.toEvent)).refusal = none
    else requests = []

theorem pending_standard_eq (current target : UInt64) :
    Chain.standard.pending current target =
      (Chain.standard.pending current target).filter Step.isEvent ++
        if current < 4 ∧ 4 ≤ target then [.model FileInheritance.step] else [] := by
  let events : List Step := [.event CommitteeManagement.step, .event ColorNormalization.step]
  have hevents : ∀ s ∈ events.filter (·.isPending current target), s.isEvent = true := by
    intro s hs
    have hmem : s ∈ events := (List.mem_filter.1 hs).1
    simp only [events, List.mem_cons, List.not_mem_nil, or_false] at hmem
    rcases hmem with rfl | rfl
    · rfl
    · rfl
  have hlast : [Step.model FileInheritance.step].filter (·.isPending current target) =
      if current < 4 ∧ 4 ≤ target then [.model FileInheritance.step] else [] := by
    have htarget : (Step.model FileInheritance.step).target = 4 := rfl
    simp [List.filter_cons, Step.isPending, htarget]
  have hpending : Chain.standard.pending current target =
      events.filter (·.isPending current target) ++
        [Step.model FileInheritance.step].filter (·.isPending current target) :=
    List.filter_append events [.model FileInheritance.step]
  rw [hpending, hlast, List.filter_append, List.filter_eq_self.2 hevents, List.append_assoc]
  split
  · rfl
  · rfl

variable {r : Registry} {now : Int64} {target : UInt64} {log : EventLog} {kept : List Position}
  {requests : List ModelChange}

theorem StepsSucceed.unique {kept' : List Position} {requests' : List ModelChange}
    (h : StepsSucceed r now target log kept requests)
    (h' : StepsSucceed r now target log kept' requests') : kept' = kept ∧ requests' = requests := by
  obtain rfl : kept' = kept := Except.ok.inj (h'.events.symm.trans h.events)
  have hmodels := h.models
  have hmodels' := h'.models
  split at hmodels
  · rename_i hpending
    rw [if_pos hpending] at hmodels'
    obtain ⟨left, hreplay, hasked, -⟩ := hmodels
    obtain ⟨left', hreplay', hasked', -⟩ := hmodels'
    obtain rfl : left' = left := Except.ok.inj (hreplay'.symm.trans hreplay)
    exact ⟨rfl, Except.ok.inj (hasked'.symm.trans hasked)⟩
  · rename_i hpending
    rw [if_neg hpending] at hmodels'
    exact ⟨rfl, hmodels'.trans hmodels.symm⟩

theorem StepsSucceed.exists_iff (h : StepsSucceed r now target log kept requests)
    {P : List Position → List ModelChange → Prop} :
    (∃ kept requests, StepsSucceed r now target log kept requests ∧ P kept requests) ↔
      P kept requests := by
  constructor
  · rintro ⟨kept', requests', h', hP⟩
    obtain ⟨rfl, rfl⟩ := h.unique h'
    exact hP
  · exact fun hP => ⟨kept, requests, h, hP⟩

/-- The positions with some changes in one more position, for which there has to be a number. -/
def appended (now : Int64) (kept : List Position) (requests : List ModelChange) :
    Except MigrationError (List Position) :=
  if requests = [] then .ok kept
  else if hasNextNumber kept then
    .ok (appendPosition kept now (requests.map ModelChange.toEvent))
  else .error outOfNumbers

/-- The model step fails for a reason of its own, or its changes are appended. -/
theorem runInOrder_fileInheritance (r : Registry) (now : Int64) (kept : List Position) :
    (∃ h requests, History.replay kept = .ok h ∧ FileInheritance.migrateModels h = .ok requests ∧
      (h.applyAll (requests.map ModelChange.toEvent)).refusal = none ∧
      runInOrder r now [.model FileInheritance.step] kept = appended now kept requests) ∨
    (∀ h requests, History.replay kept = .ok h → FileInheritance.migrateModels h = .ok requests →
      (h.applyAll (requests.map ModelChange.toEvent)).refusal ≠ none) ∧
      ∃ e, e ≠ outOfNumbers ∧ runInOrder r now [.model FileInheritance.step] kept = .error e := by
  rw [runInOrder, fst_run_model]
  cases hreplay : History.replay kept with
  | error e =>
    rw [ModelStep.run_of_replay_error hreplay]
    refine .inr ⟨fun h requests hh => ?_, .step 4 _ (.history e), ?_, rfl⟩
    · cases hh
    · rintro ⟨⟩
  | ok h =>
    have hmodels : (FileInheritance.step.migrateModels h FileInheritance.step.state).result =
      FileInheritance.migrateModels h := rfl
    rw [ModelStep.run_of_replay hreplay, hmodels]
    cases hasked : FileInheritance.migrateModels h with
    | error e =>
      refine .inr ⟨fun h' requests hh hasked' => ?_, .step 4 _ e, ?_, rfl⟩
      · cases hh
        cases hasked.symm.trans hasked'
      · rintro ⟨⟩
        exact FileInheritance.migrateModels_ne_overflow h hasked
    | ok requests =>
      simp only [Except.bind]
      cases happly : (h.applyAll (requests.map ModelChange.toEvent)).refusal with
      | some e =>
        have hsome : requests ≠ [] := by
          rintro rfl
          cases happly
        rw [if_neg hsome]
        refine .inr ⟨fun h' requests' hh hasked' => ?_, .step 4 _ (.history e), ?_, rfl⟩
        · obtain rfl := Except.ok.inj hh
          obtain rfl := Except.ok.inj (hasked.symm.trans hasked')
          simp [happly]
        · rintro ⟨⟩
      | none =>
        refine .inl ⟨h, requests, rfl, hasked, happly, ?_⟩
        rw [appended]
        by_cases hnone : requests = []
        · rw [if_pos hnone, if_pos hnone]
          rfl
        · rw [if_neg hnone, if_neg hnone]
          cases hasNextNumber kept <;> rfl

theorem runInOrder_standard (r : Registry) (now : Int64) (target : UInt64) (log : EventLog) :
    (∃ kept requests, StepsSucceed r now target log kept requests ∧
      runInOrder r now (Chain.standard.pending log.migrationIndex target) log.positions =
        appended now kept requests) ∨
    (∀ kept requests, ¬ StepsSucceed r now target log kept requests) ∧
      ∃ e, e ≠ outOfNumbers ∧
        runInOrder r now (Chain.standard.pending log.migrationIndex target) log.positions =
          .error e := by
  rw [pending_standard_eq, runInOrder_append]
  have hevents : ∀ s ∈ (Chain.standard.pending log.migrationIndex target).filter Step.isEvent,
      s ∈ Chain.standardSteps ∧ s.isEvent = true := by
    intro s hs
    obtain ⟨hpending, hevent⟩ := List.mem_filter.1 hs
    exact ⟨(List.mem_filter.1 hpending).1, hevent⟩
  cases hrun : runInOrder r now
      ((Chain.standard.pending log.migrationIndex target).filter Step.isEvent) log.positions with
  | error e =>
    refine .inr ⟨fun kept requests h => ?_, e, ?_, rfl⟩
    · cases hrun.symm.trans h.events
    · rintro rfl
      exact runInOrder_ne_overflow r now hevents log.positions hrun
  | ok kept =>
    simp only [Except.bind]
    by_cases hpending : log.migrationIndex < 4 ∧ 4 ≤ target
    · rw [if_pos hpending]
      rcases runInOrder_fileInheritance r now kept with
        ⟨h, requests, hreplay, hasked, happly, hmodel⟩ | ⟨hfails, e, he, hmodel⟩
      · refine .inl ⟨kept, requests, ⟨hrun, ?_⟩, hmodel⟩
        rw [if_pos hpending]
        exact ⟨h, hreplay, hasked, happly⟩
      · refine .inr ⟨fun kept' requests h => ?_, e, he, hmodel⟩
        obtain rfl : kept' = kept := Except.ok.inj (h.events.symm.trans hrun)
        have hmodels := h.models
        rw [if_pos hpending] at hmodels
        obtain ⟨left, hreplay, hasked, happly⟩ := hmodels
        exact hfails left requests hreplay hasked happly
    · rw [if_neg hpending]
      refine .inl ⟨kept, [], ⟨hrun, ?_⟩, rfl⟩
      rw [if_neg hpending]

theorem StepsSucceed.runInOrder_eq (h : StepsSucceed r now target log kept requests) :
    runInOrder r now (Chain.standard.pending log.migrationIndex target) log.positions =
      appended now kept requests := by
  rcases runInOrder_standard r now target log with ⟨kept', requests', h', hend⟩ | ⟨hfails, -⟩
  · obtain ⟨rfl, rfl⟩ := h.unique h'
    exact hend
  · exact absurd h (hfails kept requests)

theorem fst_advance_standard (r : Registry) (now : Int64) (target : UInt64) (log : EventLog) :
    ((⟨r, .standard⟩ : Migrator).advance now target log).1 =
      (runInOrder r now (Chain.standard.pending log.migrationIndex target) log.positions).map
        fun positions =>
          ⟨positions, (Chain.standard.pending log.migrationIndex target).map Step.name⟩ :=
  Migrator.advance_eq ⟨r, .standard⟩ now target log

theorem appended_cases (now : Int64) (kept : List Position) (requests : List ModelChange) :
    (requests = [] ∧ appended now kept requests = .ok kept) ∨
      (requests ≠ [] ∧ (lastNumber 0 kept).toNat + 1 < UInt64.size ∧
        appended now kept requests =
          .ok (appendPosition kept now (requests.map ModelChange.toEvent))) ∨
      (requests ≠ [] ∧ (lastNumber 0 kept).toNat + 1 = UInt64.size ∧
        appended now kept requests = .error outOfNumbers) := by
  rw [appended]
  by_cases hnone : requests = []
  · exact .inl ⟨hnone, if_pos hnone⟩
  · rw [if_neg hnone]
    by_cases hnumber : hasNextNumber kept = true
    · exact .inr (.inl ⟨hnone, hasNextNumber_iff.1 hnumber, if_pos hnumber⟩)
    · have hbound := (lastNumber 0 kept).toNat_lt_size
      have hlast := mt hasNextNumber_iff.2 hnumber
      exact .inr (.inr ⟨hnone, by omega, if_neg hnumber⟩)

/-- The log that a migration of a well-formed log along the standard chain makes is well-formed: its
positions are those that the event steps leave and, if there are changes to append, one more under the
next number. The migration overflows just if all steps succeed, there are changes to append and the
last number is the greatest one, and no other way leads from steps that succeed to a failure. -/
theorem advance_overflows_iff {r : Registry} {now : Int64} {target : UInt64} {log : EventLog}
    (hlog : log.problem? = none) :
    let run := ((⟨r, .standard⟩ : Migrator).advance now target log).1
    (run = .error outOfNumbers ↔ ∃ kept requests, StepsSucceed r now target log kept requests ∧
      requests ≠ [] ∧ (lastNumber 0 kept).toNat + 1 = UInt64.size) ∧
    ((∃ p, run = .ok p) ↔ ∃ kept requests, StepsSucceed r now target log kept requests ∧
      (requests = [] ∨ (lastNumber 0 kept).toNat + 1 < UInt64.size)) ∧
    ∀ p, run = .ok p → (⟨target, p.positions⟩ : EventLog).problem? = none ∧
      ∃ kept requests, StepsSucceed r now target log kept requests ∧
        (requests = [] → p.positions = kept) ∧
        (requests ≠ [] → ∃ number, number.toNat = (lastNumber 0 kept).toNat + 1 ∧
          p.positions = kept ++ [⟨number, now, none, requests.map ModelChange.toEvent⟩]) := by
  intro run
  have hrun : run = _ := fst_advance_standard r now target log
  rcases runInOrder_standard r now target log with
    ⟨kept, requests, hsteps, hend⟩ | ⟨hfails, e, he, hend⟩
  · have hvalid : EventLog.firstProblem? 0 kept = none :=
      firstProblem?_runInOrder r (fun s hs => (List.mem_filter.1 hs).2) hlog hsteps.events
    rw [hsteps.exists_iff, hsteps.exists_iff]
    simp only [hsteps.exists_iff]
    rw [hend] at hrun
    rcases appended_cases now kept requests with
      ⟨hnone, happended⟩ | ⟨hsome, hnumber, happended⟩ | ⟨hsome, hnumber, happended⟩
    · rw [hrun, happended]
      refine ⟨iff_of_false nofun fun h => h.1 hnone, iff_of_true ⟨_, rfl⟩ (.inl hnone), ?_⟩
      rintro p ⟨⟩
      exact ⟨hvalid, fun _ => rfl, fun hsome => absurd hnone hsome⟩
    · have hnext := toNat_add_one_of_lt hnumber
      rw [hrun, happended, appendPosition_eq]
      refine ⟨iff_of_false nofun fun h => ?_, iff_of_true ⟨_, rfl⟩ (.inr hnumber), ?_⟩
      · exact Nat.ne_of_lt hnumber h.2
      · rintro p ⟨⟩
        refine ⟨firstProblem?_append_next hvalid ?_ hnext, fun hnone => absurd hnone hsome,
          fun _ => ⟨_, hnext, rfl⟩⟩
        simpa using hsome
    · rw [hrun, happended]
      refine ⟨iff_of_true rfl ⟨hsome, hnumber⟩, iff_of_false nofun fun h => ?_, nofun⟩
      rcases h with hnone | hlt
      · exact hsome hnone
      · exact Nat.ne_of_lt hlt hnumber
  · rw [hend] at hrun
    rw [hrun]
    refine ⟨iff_of_false ?_ ?_, iff_of_false nofun ?_, nofun⟩
    · rintro ⟨⟩
      exact he rfl
    · rintro ⟨kept, requests, hsteps, -⟩
      exact hfails kept requests hsteps
    · rintro ⟨kept, requests, hsteps, -⟩
      exact hfails kept requests hsteps

end Standard

/-- A log with one file in a meeting that is not marked as public, in a position of a given number. -/
def oneFileAt (number : UInt64) : EventLog :=
  ⟨3, [⟨number, 1, none, [.create ⟨"meeting_mediafile", 1⟩ ∅]⟩]⟩

theorem advance_oneFileAt :
    (oneFileAt 7).problem? = none ∧
      ∃ p, ((⟨⟨∅⟩, .standard⟩ : Migrator).advance 0 4 (oneFileAt 7)).1 = .ok p ∧
        (⟨4, p.positions⟩ : EventLog).problem? = none ∧ p.positions.map (·.position) = [7, 8] := by
  have hlog : (oneFileAt 7).problem? = none := by decide
  obtain ⟨p, hrun⟩ := exists_eq_ok
    (x := ((⟨⟨∅⟩, .standard⟩ : Migrator).advance 0 4 (oneFileAt 7)).1) (by decide +kernel)
  have hnumbers : ((⟨⟨∅⟩, .standard⟩ : Migrator).advance 0 4 (oneFileAt 7)).1.toOption.map
      (·.positions.map (·.position)) = some [7, 8] := by decide +kernel
  rw [hrun] at hnumbers
  obtain ⟨hvalid, -⟩ := (advance_overflows_iff hlog).2.2 p hrun
  exact ⟨hlog, p, hrun, hvalid, Option.some.inj hnumbers⟩

def fileModels : String :=
  "meeting_mediafile:\n  id:\n    type: number\n    required: true\n" ++
    "  is_public:\n    type: boolean\n"

def files : Registry := (Registry.ofText fileModels).toOption.getD ⟨∅⟩

/-- The greatest number is taken, so that the migration stops although all of its steps succeed and
ask for a corrected mark. -/
theorem fileAtLastNumber_is_not_migrated :
    let m : Migrator := ⟨files, .standard⟩
    let log := oneFileAt 18446744073709551615
    Registry.ofText fileModels = .ok files ∧ log.problem? = none ∧
      (∃ requests, StepsSucceed files 0 m.latest log log.positions requests ∧ requests ≠ []) ∧
      (m.migrateTo 0 m.latest (MemoryStore.ofLog log)).result = .error outOfNumbers ∧
      outOfNumbers.isCrash = true := by
  intro m log
  have hregistry : Registry.ofText fileModels = .ok files := by
    obtain ⟨r, hr⟩ := exists_eq_ok (x := Registry.ofText fileModels) (by decide +kernel)
    simp [files, hr, Except.toOption]
  obtain ⟨h, hreplay, hasked⟩ := exists_eq_ok_of_any (x := History.replay log.positions)
    (p := fun h => (FileInheritance.migrateModels h).toOption.any fun requests =>
      !requests.isEmpty && (h.applyAll (requests.map ModelChange.toEvent)).refusal.isNone)
    (by decide +kernel)
  obtain ⟨requests, hrequests, hsome⟩ := exists_eq_ok_of_any hasked
  rw [Bool.and_eq_true, Bool.not_eq_true', Option.isNone_iff_eq_none] at hsome
  have hasks : requests ≠ [] := by simpa using hsome.1
  have hsteps : StepsSucceed files 0 m.latest log log.positions requests := by
    refine ⟨rfl, ?_⟩
    rw [if_pos (by decide)]
    exact ⟨h, hreplay, hrequests, hsome.2⟩
  refine ⟨hregistry, by decide, ⟨requests, hsteps, hasks⟩, ?_, rfl⟩
  have happended : appended 0 log.positions requests = .error outOfNumbers := by
    rw [appended, if_neg hasks, if_neg (by decide)]
  exact Migrator.result_of_failed m 0 m.latest _ (by decide) (hsteps.runInOrder_eq.trans happended)

end Migration

end MeetingLedger
