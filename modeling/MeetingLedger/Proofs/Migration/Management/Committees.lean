import MeetingLedger.Proofs.Migration.Management.Position

/-!
# Committees of users after the step

The committees that users list after the step, against the levels that they held before it. The two
agree except where the step loses track of a user: it looks up the committees of a user whose levels
change among the users that are not deleted at the start of the position, so that it finds none for
a user who is restored in that position.
-/

namespace MeetingLedger.Migration.CommitteeManagement

/-- Whether the step loses track of a user in a position: the user is deleted at its start and a
level of the user is written in it. -/
def losesTrack (h : History) (user : UInt64) (p : Position) : Bool :=
  h.isDeleted (userId user) && p.events.any (writesSomeLevel user)

def writesLevelIn (user committee : UInt64) (p : Position) : Bool :=
  p.events.any (writesLevel user committee)

/-- Whether the level of a user for a committee is written again in or after every position where
the step loses track of the user. The history is the one before the positions. -/
def recovers (user committee : UInt64) : History → List Position → Bool
  | _, [] => true
  | h, p :: ps =>
    (!losesTrack h user p || (p :: ps).any (writesLevelIn user committee)) &&
      recovers user committee (h.applyAll p.events).history ps

theorem Alike.isDeleted {h l : History} {f : Fqid}
    (halike : Alike (h.models.get? f) (l.models.get? f)) : h.isDeleted f = l.isDeleted f := by
  rw [Alike] at halike
  rw [History.isDeleted, History.isDeleted]
  rcases hm : h.models.get? f with _ | m <;> rcases hn : l.models.get? f with _ | n <;>
    simp_all

variable {h h₁ l l₁ : History} {user : UInt64}

theorem Ends.listsCommittee {p : Position} {s : State} (hends : Ends h l p h₁ l₁ s)
    (halike : Alike (h.models.get? (userId user)) (l.models.get? (userId user)))
    (committee : UInt64) : listsCommittee (h₁.models.get? (userId user)) committee =
      if writesLevelIn user committee p then holdsLevel (l₁.models.get? (userId user)) committee
      else listsCommittee (h.models.get? (userId user)) committee && !losesTrack l user p := by
  have hstanding := (hends.users user halike).2 committee
  have hlists := congrArg Standing.lists hstanding
  rw [Standing.lists_after, ← hstanding, halike.isDeleted] at hlists
  refine hlists.trans ?_
  simp [standing, State.initial, losesTrack, writesLevelIn]

/-- A position that does not write a level leaves it. -/
theorem Ends.holdsLevel {p : Position} {s : State} (hends : Ends h l p h₁ l₁ s)
    (halike : Alike (h.models.get? (userId user)) (l.models.get? (userId user)))
    {committee : UInt64} (hwrites : writesLevelIn user committee p = false) :
    holdsLevel (l₁.models.get? (userId user)) committee =
      holdsLevel (l.models.get? (userId user)) committee :=
  (congrArg Standing.holds ((hends.users user halike).2 committee)).trans
    (Standing.holds_after _ hwrites _)

theorem listsCommittee_of_migrates (user committee : UInt64) {s t : step.State}
    {ps out : List Position} (hrun : step.Migrates h s ps h₁ t out) (hlegacy : ∀ p ∈ ps, ∀ e ∈ p.events, IsLegacy e)
    (hl : l.applyAll (ps.flatMap (·.events)) = ⟨l₁, none⟩)
    (halike : Alike (h.models.get? (userId user)) (l.models.get? (userId user)))
    (hholds : listsCommittee (h.models.get? (userId user)) committee = true →
      holdsLevel (l.models.get? (userId user)) committee = true) :
    (ps.any (writesLevelIn user committee) = false →
      holdsLevel (l₁.models.get? (userId user)) committee =
        holdsLevel (l.models.get? (userId user)) committee) ∧
      listsCommittee (h₁.models.get? (userId user)) committee =
        (holdsLevel (l₁.models.get? (userId user)) committee &&
          (ps.any (writesLevelIn user committee) ||
            listsCommittee (h.models.get? (userId user)) committee) &&
          recovers user committee l ps) := by
  induction hrun generalizing l with
  | nil h s =>
    cases hl
    refine ⟨fun _ => rfl, ?_⟩
    cases hlists : listsCommittee (h.models.get? (userId user)) committee
    · simp
    · simp [recovers, hholds hlists]
  | @cons h h₂ h₁ s s₂ t p ps out events position applied rest ih =>
    obtain ⟨l₂, hl₂, hlRest⟩ := History.applyAll_append_eq_iff.1 hl
    obtain ⟨s', hends⟩ := ends_of_migratePosition (hlegacy p List.mem_cons_self) position applied hl₂
    have hlists := hends.listsCommittee halike committee
    have hsame : writesLevelIn user committee p = false → _ := hends.holdsLevel halike
    have hsub : listsCommittee (h₂.models.get? (userId user)) committee = true →
        holdsLevel (l₂.models.get? (userId user)) committee = true := by
      rw [hlists]
      cases hwrites : writesLevelIn user committee p
      · rw [hsame hwrites]
        intro hkept
        exact hholds (Bool.and_eq_true_iff.1 hkept).1
      · exact id
    obtain ⟨hkept, hfinal⟩ := ih (fun q hq => hlegacy q (List.mem_cons_of_mem _ hq)) hlRest
      (hends.users user halike).1 hsub
    rw [List.any_cons]
    refine ⟨fun hnone => ?_, ?_⟩
    · obtain ⟨hp, hps⟩ := Bool.or_eq_false_iff.1 hnone
      exact (hkept hps).trans (hsame hp)
    · rw [hfinal, recovers, hl₂, List.any_cons]
      cases hps : ps.any (writesLevelIn user committee)
      · rw [hkept hps, hlists]
        cases writesLevelIn user committee p <;>
          cases holdsLevel (l₂.models.get? (userId user)) committee <;>
          cases listsCommittee (h.models.get? (userId user)) committee <;>
          cases losesTrack l user p <;> simp
      · simp

/-- After the step, a user lists exactly the committees for which the user held the level, provided
that the levels are written again for which the step lost track of the user. -/
theorem committees_agree_iff_recovers {r : Schema.Registry} {ps out : List Position} {l : History}
    (hlegacy : ∀ p ∈ ps, ∀ e ∈ p.events, IsLegacy e) (hreplay : History.replay ps = .ok l)
    (hrun : (step.run r ps).1 = .ok out) :
    ∃ h, History.replay out = .ok h ∧ ∀ user,
      (∀ committee, listsCommittee (h.models.get? (userId user)) committee =
          holdsLevel (l.models.get? (userId user)) committee) ↔
        ∀ committee, holdsLevel (l.models.get? (userId user)) committee = true →
          recovers user committee .empty ps = true := by
  obtain ⟨h, t, hmigrates, hout⟩ := EventStep.migrates_of_run hrun
  refine ⟨h, hout, fun user => forall_congr' fun committee => ?_⟩
  obtain ⟨hkept, hlists⟩ := listsCommittee_of_migrates user committee hmigrates hlegacy
    (replay_eq_ok_iff.1 hreplay) rfl (by rintro ⟨⟩)
  have hstart : holdsLevel (History.empty.models.get? (userId user)) committee = false := rfl
  rw [hlists]
  cases hholds : holdsLevel (l.models.get? (userId user)) committee
  · simp
  · cases hwrites : ps.any (writesLevelIn user committee)
    · rw [hkept hwrites, hstart] at hholds
      cases hholds
    · simp

def promotedTwice : List Position :=
  [⟨1, 0, none, [.create (committeeFqid 1) ∅, .create (committeeFqid 2) ∅,
    .create (userId 1) (promotion 1), .update (userId 1) (promotion 2)]⟩]

theorem isLegacy_promotedTwice : ∀ p ∈ promotedTwice, ∀ e ∈ p.events, IsLegacy e := by
  intro p hp e he
  obtain rfl := List.mem_singleton.1 hp
  simp only [List.mem_cons, List.not_mem_nil, or_false] at he
  rcases he with rfl | rfl | rfl | rfl <;>
    exact isLegacy_of_promotion (by simp [Event.fields?]) (by simp)

theorem committees_agree_of_promotedTwice :
    ∃ l out h, History.replay promotedTwice = .ok l ∧ (step.run ⟨∅⟩ promotedTwice).1 = .ok out ∧
      History.replay out = .ok h ∧ ∀ committee,
        listsCommittee (h.models.get? (userId 1)) committee =
          holdsLevel (l.models.get? (userId 1)) committee := by
  obtain ⟨l, hl⟩ := exists_eq_ok (x := History.replay promotedTwice) (by decide +kernel)
  obtain ⟨out, hout⟩ := exists_eq_ok (x := (step.run ⟨∅⟩ promotedTwice).1) (by decide +kernel)
  obtain ⟨h, hh, hagree⟩ := committees_agree_iff_recovers isLegacy_promotedTwice hl hout
  exact ⟨l, out, h, hl, hout, hh, (hagree 1).2 fun _ _ => rfl⟩

/-- A deleted manager of a committee who is restored and becomes the manager of another one. -/
def restoredAndPromoted : List Position :=
  [⟨1, 0, none, [.create (committeeFqid 1) ∅, .create (committeeFqid 2) ∅,
    .create (userId 1) (promotion 1)]⟩,
   ⟨2, 0, none, [.delete (userId 1)]⟩,
   ⟨3, 0, none, [.restore (userId 1), .update (userId 1) (promotion 2)]⟩]

theorem restoredAndPromoted_loses_committee :
    (∀ p ∈ restoredAndPromoted, ∀ e ∈ p.events, IsLegacy e) ∧
      ∃ l out h, History.replay restoredAndPromoted = .ok l ∧
        (step.run ⟨∅⟩ restoredAndPromoted).1 = .ok out ∧ History.replay out = .ok h ∧
        holdsLevel (l.models.get? (userId 1)) 1 = true ∧
        listsCommittee (h.models.get? (userId 1)) 1 = false := by
  refine ⟨fun p hp e he => ?_, ?_⟩
  · simp only [restoredAndPromoted, List.mem_cons, List.not_mem_nil, or_false] at hp
    rcases hp with rfl | rfl | rfl <;> simp only [List.mem_cons, List.not_mem_nil, or_false] at he
    · rcases he with rfl | rfl | rfl <;>
        exact isLegacy_of_promotion (by simp [Event.fields?]) (by simp)
    · subst he
      exact isLegacy_of_promotion (by simp [Event.fields?]) (by simp)
    · rcases he with rfl | rfl <;>
        exact isLegacy_of_promotion (by simp [Event.fields?]) (by simp)
  · have hboth : ((History.replay restoredAndPromoted).toOption.bind fun l =>
        (step.run ⟨∅⟩ restoredAndPromoted).1.toOption.bind fun out =>
          (History.replay out).toOption.map fun h =>
            (holdsLevel (l.models.get? (userId 1)) 1, listsCommittee (h.models.get? (userId 1)) 1)) =
        some (true, false) := by decide +kernel
    obtain ⟨l, hl⟩ := exists_eq_ok (x := History.replay restoredAndPromoted) (by decide +kernel)
    obtain ⟨out, hout⟩ := exists_eq_ok (x := (step.run ⟨∅⟩ restoredAndPromoted).1)
      (by decide +kernel)
    rw [hl, hout] at hboth
    cases hh : History.replay out with
    | error e => simp [hh, Except.toOption] at hboth
    | ok h =>
      simp only [hh, Except.toOption, Option.bind_some, Option.map_some, Option.some.injEq,
        Prod.mk.injEq] at hboth
      exact ⟨l, out, h, hl, hout, hh, hboth.1, hboth.2⟩

end MeetingLedger.Migration.CommitteeManagement
