import MeetingLedger.Proofs.Migration.Management.Readable
import MeetingLedger.Proofs.Migration.Management.Standing

/-!
# The events of a position

The step at work on all events of a position. A user and a committee go through the position as
their small machine does, and what is taken down about them becomes one change of the list of
managers of the committee at the end.
-/

namespace MeetingLedger.Migration.CommitteeManagement

section Frame

variable {h : History} {s s' : State} {e : Event} {r : Option (List Event)}

def createsCommittee (committee : UInt64) : Event → Bool
  | .create f _ => f == committeeFqid committee
  | _ => false

/-- An event of a model that is no user is kept, and creations of committees are remembered. -/
theorem replacement_of_ne_user (huser : e.fqid.collection ≠ "user")
    (hdone : migrateEvent e h s = .done r s') :
    r = none ∧ s'.managed = s.managed ∧ s'.managers = s.managers ∧
      ∀ committee, s'.created.contains committee =
        (createsCommittee committee e || s.created.contains committee) := by
  rw [migrateEvent.eq_def, if_neg huser] at hdone
  cases e with
  | create f fields =>
    obtain ⟨name, id⟩ := f
    simp only at hdone
    split at hdone
    · rename_i hcommittee
      obtain ⟨rfl, rfl⟩ := Outcome.done_eq_done_iff.1 hdone
      obtain rfl : name = "committee" := hcommittee
      refine ⟨rfl, rfl, rfl, fun committee => ?_⟩
      rw [SortedMap.contains_insert, Bool.eq_iff_iff]
      simp [createsCommittee, committeeFqid, eq_comm (a := committee)]
    · rename_i hcommittee
      obtain ⟨rfl, rfl⟩ := Outcome.done_eq_done_iff.1 hdone
      have hne : name ≠ "committee" := hcommittee
      exact ⟨rfl, rfl, rfl, fun committee => by simp [createsCommittee, committeeFqid, hne]⟩
  | _ =>
    obtain ⟨rfl, rfl⟩ := Outcome.done_eq_done_iff.1 hdone
    exact ⟨rfl, rfl, rfl, fun committee => by simp [createsCommittee]⟩

theorem fqid_of_migrateEvent (hdone : migrateEvent e h s = .done r s') :
    ∀ d ∈ r.getD [e], d.fqid = e.fqid := by
  by_cases huser : e.fqid.collection = "user"
  · rw [migrateEvent_of_user huser] at hdone
    cases e with
    | create f fields =>
      obtain ⟨r₀, s₀, -, hr⟩ := Outcome.andThen_eq_done_iff.1 hdone
      obtain ⟨rfl, -⟩ := Outcome.done_eq_done_iff.1 hr
      cases r₀ <;> simp [Event.fqid]
    | update f fields =>
      obtain ⟨r₀, s₀, -, hr⟩ := Outcome.andThen_eq_done_iff.1 hdone
      obtain ⟨rfl, -⟩ := Outcome.done_eq_done_iff.1 hr
      rcases r₀ with _ | fields'
      · simp
      · by_cases hempty : fields'.isEmpty = true <;> simp [hempty, Event.fqid]
    | listUpdate f add remove =>
      obtain ⟨rfl, -⟩ := Outcome.done_eq_done_iff.1 hdone
      rw [migrateLists]
      split
      · simp only
        split <;> simp [Event.fqid]
      · simp
    | delete f =>
      obtain ⟨rfl, -⟩ := Outcome.done_eq_done_iff.1 hdone
      simp
    | restore f =>
      obtain ⟨rfl, -⟩ := Outcome.done_eq_done_iff.1 hdone
      simp
  · rw [(replacement_of_ne_user huser hdone).1]
    simp

theorem created_migrateFields {f : Fqid} {fields : Instance} {isCreation : Bool}
    {r : Option Instance} (hdone : migrateFields f fields isCreation h s = .done r s') :
    s'.created = s.created := by
  rw [migrateFields] at hdone
  split at hdone
  · cases hdone
  · simp only at hdone
    split at hdone
    · rw [← (Outcome.done_eq_done_iff.1 hdone).2]
    · split at hdone
      · rw [← (Outcome.done_eq_done_iff.1 hdone).2]
      · rw [← (Outcome.done_eq_done_iff.1 hdone).2]
        simp

theorem created_migrateEvent (hdone : migrateEvent e h s = .done r s') (committee : UInt64) :
    s'.created.contains committee =
      (createsCommittee committee e || s.created.contains committee) := by
  by_cases huser : e.fqid.collection = "user"
  · have hother : createsCommittee committee e = false := by
      cases e with
      | create f fields =>
        have hne : f ≠ committeeFqid committee := by
          rintro rfl
          simp [Event.fqid, committeeFqid] at huser
        simpa [createsCommittee] using hne
      | _ => rfl
    rw [migrateEvent_of_user huser] at hdone
    rw [hother, Bool.false_or]
    cases e with
    | create f fields | update f fields =>
      obtain ⟨r₀, s₀, hfields, hr⟩ := Outcome.andThen_eq_done_iff.1 hdone
      obtain ⟨-, rfl⟩ := Outcome.done_eq_done_iff.1 hr
      rw [created_migrateFields hfields]
    | _ =>
      obtain ⟨-, rfl⟩ := Outcome.done_eq_done_iff.1 hdone
      simp
  · exact (replacement_of_ne_user huser hdone).2.2.2 committee

/-- Fields of another user leave alone what the step knows about a user. -/
theorem migrateFields_frame {f : Fqid} {fields : Instance} {isCreation : Bool}
    {r : Option Instance} (hreadable : IsReadable e) (huser : e.fqid.collection = "user")
    (hfields : e.fields? = some fields)
    (hdone : migrateFields f fields isCreation h s = .done r s') {user : UInt64}
    (hne : user ≠ f.id) :
    s'.managed.get? user = s.managed.get? user ∧
      ∀ committee, s'.flag user committee = s.flag user committee := by
  cases hempty : (levelsOf fields).isEmpty with
  | true =>
    obtain ⟨r₀, hdone₀, -⟩ := hreadable.migrateFields_of_isEmpty huser hfields hempty
    obtain ⟨-, rfl⟩ := Outcome.done_eq_done_iff.1 (hdone.symm.trans hdone₀)
    exact ⟨rfl, fun _ => rfl⟩
  | false =>
    obtain ⟨managed, s₀, hdone₀, hmanaged, -, hflag⟩ :=
      hreadable.migrateFields_of_levels huser hfields hempty
    obtain ⟨-, rfl⟩ := Outcome.done_eq_done_iff.1 (hdone.symm.trans hdone₀)
    refine ⟨?_, fun committee => ?_⟩
    · rw [hmanaged, SortedMap.get?_insert_of_ne _ hne]
    · rw [hflag, if_neg fun hu => hne hu.1]

/-- An event of another model leaves alone what the step knows about a user. -/
theorem migrateEvent_frame (hreadable : IsReadable e) (hdone : migrateEvent e h s = .done r s')
    {user : UInt64} (hne : e.fqid ≠ userId user) :
    s'.managed.get? user = s.managed.get? user ∧
      ∀ committee, s'.flag user committee = s.flag user committee := by
  by_cases huser : e.fqid.collection = "user"
  · have hid : user ≠ e.fqid.id := by
      rintro rfl
      exact hne (by cases hf : e.fqid; simp_all [userId])
    have hflag (s : State) (manages : Bool) (ids : List UInt64) (committee : UInt64) :
        (s.setManagers e.fqid.id manages ids).flag user committee = s.flag user committee := by
      rw [State.flag_setManagers, if_neg fun hu => hid hu.1]
    rw [migrateEvent_of_user huser] at hdone
    cases e with
    | create f fields =>
      obtain ⟨r₀, s₀, hfields, hr⟩ := Outcome.andThen_eq_done_iff.1 hdone
      obtain ⟨-, rfl⟩ := Outcome.done_eq_done_iff.1 hr
      exact migrateFields_frame hreadable huser rfl hfields hid
    | update f fields =>
      obtain ⟨r₀, s₀, hfields, hr⟩ := Outcome.andThen_eq_done_iff.1 hdone
      obtain ⟨-, rfl⟩ := Outcome.done_eq_done_iff.1 hr
      exact migrateFields_frame hreadable huser rfl hfields hid
    | listUpdate f add remove =>
      obtain ⟨-, rfl⟩ := Outcome.done_eq_done_iff.1 hdone
      exact ⟨rfl, fun _ => rfl⟩
    | delete f =>
      obtain ⟨-, rfl⟩ := Outcome.done_eq_done_iff.1 hdone
      exact ⟨by rw [State.managed_setManagers], hflag s _ _⟩
    | restore f =>
      obtain ⟨-, rfl⟩ := Outcome.done_eq_done_iff.1 hdone
      exact ⟨by rw [State.managed_setManagers], hflag s _ _⟩
  · obtain ⟨-, hmanaged, hmanagers, -⟩ := replacement_of_ne_user huser hdone
    exact ⟨by rw [hmanaged], fun committee => by rw [State.flag, State.flag, hmanagers]⟩

end Frame

section Events

variable {h : History} {s t : State} {es events : List Event}

/-- The events of a position, as far as the step keeps track of a user and the committees. -/
theorem Coherent.track_after {user : UInt64} {recorded m m' l l' : Option Model}
    (hc : Coherent user recorded s m l) (hrecorded : h.models.get? (userId user) = recorded)
    (hreadable : ∀ e ∈ es, IsReadable e) (hrun : step.migrateEvents h es s = .done events t)
    (hl : History.modelAfter? (userId user) es l = some l')
    (hm : History.modelAfter? (userId user) events m = some m') :
    Coherent user recorded t m' l' ∧ ∀ committee, tracking t m' user committee =
      (tracking s m user committee).after (recorded.any (·.deleted)) user committee es := by
  induction es generalizing s m l events with
  | nil =>
    obtain ⟨rfl, rfl⟩ := Outcome.done_eq_done_iff.1 hrun
    cases hl
    cases hm
    exact ⟨hc, fun _ => rfl⟩
  | cons e es ih =>
    obtain ⟨r, s₁, rest, hfirst, hrest, rfl⟩ := EventStep.migrateEvents_cons_eq_done_iff.1 hrun
    have hreadable₁ := hreadable e List.mem_cons_self
    have hreadableRest := fun d hd => hreadable d (List.mem_cons_of_mem _ hd)
    rw [History.modelAfter?_append, Option.bind_eq_some_iff] at hm
    obtain ⟨m₁, hm₁, hmRest⟩ := hm
    by_cases huser : e.fqid = userId user
    · rw [History.modelAfter?, if_pos huser, Option.bind_eq_some_iff] at hl
      obtain ⟨l₁, hl₁, hlRest⟩ := hl
      obtain ⟨hc₁, htracking⟩ := hc.track hrecorded hreadable₁ huser hfirst hl₁ hm₁
      obtain ⟨hc', htrackings⟩ := ih hc₁ hreadableRest hrest hlRest hmRest
      refine ⟨hc', fun committee => ?_⟩
      rw [htrackings, htracking, Tracking.after, if_pos huser]
    · rw [History.modelAfter?, if_neg huser] at hl
      rw [History.modelAfter?_of_forall_ne fun d hd => by
        rw [fqid_of_migrateEvent hfirst d hd]; exact huser] at hm₁
      cases hm₁
      obtain ⟨hmanaged, hflag⟩ := migrateEvent_frame hreadable₁ hfirst huser
      have hc₁ : Coherent user recorded s₁ m l :=
        ⟨hc.alike, fun managed hget => hc.remembered managed (hmanaged ▸ hget),
          fun hget => hc.recorded (hmanaged ▸ hget)⟩
      obtain ⟨hc', htrackings⟩ := ih hc₁ hreadableRest hrest hl hmRest
      refine ⟨hc', fun committee => ?_⟩
      have hsame : tracking s₁ m user committee = tracking s m user committee := by
        simp only [tracking, hmanaged, hflag]
      rw [htrackings, Tracking.after, if_neg huser, hsame]

theorem Coherent.after {user : UInt64} {recorded m m' l l' : Option Model}
    (hc : Coherent user recorded s m l) (hrecorded : h.models.get? (userId user) = recorded)
    (hlegacy : ∀ e ∈ es, IsLegacy e) (hrun : step.migrateEvents h es s = .done events t)
    (hl : History.modelAfter? (userId user) es l = some l')
    (hm : History.modelAfter? (userId user) events m = some m') :
    Coherent user recorded t m' l' ∧ ∀ committee, standing t m' l' user committee =
      (standing s m l user committee).after (recorded.any (·.deleted)) user committee es := by
  obtain ⟨hc', htracking⟩ :=
    hc.track_after hrecorded (fun e he => (hlegacy e he).isReadable) hrun hl hm
  refine ⟨hc', fun committee => ?_⟩
  change (tracking t m' user committee).standing l' committee = _
  rw [htracking]
  exact (Tracking.standing_after hlegacy hl _ _).symm

theorem modelAfter?_migrateEvents {f : Fqid} (hf : f.collection ≠ "user")
    (hrun : step.migrateEvents h es s = .done events t) (m : Option Model) :
    History.modelAfter? f events m = History.modelAfter? f es m := by
  induction es generalizing s m events with
  | nil =>
    obtain ⟨rfl, rfl⟩ := Outcome.done_eq_done_iff.1 hrun
    rfl
  | cons e es ih =>
    obtain ⟨r, s₁, rest, hfirst, hrest, rfl⟩ := EventStep.migrateEvents_cons_eq_done_iff.1 hrun
    rw [History.modelAfter?_append]
    by_cases heq : e.fqid = f
    · obtain ⟨rfl, -⟩ := replacement_of_ne_user (heq ▸ hf) hfirst
      rw [← heq, Option.getD_none, History.modelAfter?_singleton, History.modelAfter?, if_pos rfl]
      cases e.next? m with
      | none => rfl
      | some m₁ => exact heq ▸ ih hrest (some m₁)
    · rw [History.modelAfter?_of_forall_ne fun d hd => by
        rw [fqid_of_migrateEvent hfirst d hd]; exact heq]
      rw [History.modelAfter?, if_neg heq]
      exact ih hrest m

theorem created_migrateEvents (hrun : step.migrateEvents h es s = .done events t)
    (committee : UInt64) :
    t.created.contains committee =
      (es.any (createsCommittee committee) || s.created.contains committee) := by
  induction es generalizing s events with
  | nil =>
    obtain ⟨rfl, rfl⟩ := Outcome.done_eq_done_iff.1 hrun
    simp
  | cons e es ih =>
    obtain ⟨r, s₁, rest, hfirst, hrest, rfl⟩ := EventStep.migrateEvents_cons_eq_done_iff.1 hrun
    rw [ih hrest, created_migrateEvent hfirst, List.any_cons]
    cases createsCommittee committee e <;> simp

end Events

def managersEvents (h : History) (s : State) : List Event :=
  s.managers.entries.filterMap fun e => managersEvent? h s.created e.1 e.2

theorem fqid_of_managersEvent? {h : History} {created : IdSet} {committee : UInt64}
    {users : SortedMap UInt64 Bool} {e : Event}
    (he : managersEvent? h created committee users = some e) : e.fqid = committeeFqid committee := by
  simp only [managersEvent?] at he
  split at he
  · cases he
    rfl
  · cases he

/-- A position at its end: what its events made of each user, of every other model before the
changes to the managers, and of the committees that the step remembers to be new. -/
structure Ends (h l : History) (p : Position) (h₁ l₁ : History) (s : State) : Prop where
  users : ∀ user, Alike (h.models.get? (userId user)) (l.models.get? (userId user)) →
    Alike (h₁.models.get? (userId user)) (l₁.models.get? (userId user)) ∧
      ∀ committee, standing s (h₁.models.get? (userId user)) (l₁.models.get? (userId user)) user
        committee = (standing .initial (h.models.get? (userId user)) (l.models.get? (userId user))
          user committee).after (h.isDeleted (userId user)) user committee p.events
  others : ∀ f, f.collection ≠ "user" → ∃ m,
    History.modelAfter? f p.events (h.models.get? f) = some m ∧
      History.modelAfter? f (managersEvents h s) m = some (h₁.models.get? f)
  created : ∀ committee, s.created.contains committee = p.events.any (createsCommittee committee)

theorem ends_of_migratePosition {h h₁ l l₁ : History} {p : Position} {s t : State}
    {events : List Event} (hlegacy : ∀ e ∈ p.events, IsLegacy e)
    (hrun : step.migratePosition h p s = .done events t)
    (happly : h.applyAll events = ⟨h₁, none⟩) (hl : l.applyAll p.events = ⟨l₁, none⟩) :
    ∃ s₁, Ends h l p h₁ l₁ s₁ := by
  obtain ⟨front, s₁, more, hfront, hmore, rfl⟩ := EventStep.migratePosition_eq_done_iff.1 hrun
  obtain ⟨rfl, -⟩ := Outcome.done_eq_done_iff.1 hmore
  refine ⟨s₁, fun user halike => ?_, fun f hf => ?_, fun committee => ?_⟩
  · have hnone : ∀ e ∈ managersEvents h s₁, e.fqid ≠ userId user := by
      intro e he
      obtain ⟨d, -, hd⟩ := List.mem_filterMap.1 he
      rw [fqid_of_managersEvent? hd]
      simp [committeeFqid, userId]
    have hm := History.modelAfter?_of_applyAll happly (userId user)
    rw [History.modelAfter?_append, Option.bind_eq_some_iff] at hm
    obtain ⟨m, hm, hrest⟩ := hm
    rw [← Option.some.inj ((History.modelAfter?_of_forall_ne hnone m).symm.trans hrest)]
    have hstart : Coherent user (h.models.get? (userId user)) .initial
        (h.models.get? (userId user)) (l.models.get? (userId user)) :=
      ⟨halike, by rintro managed ⟨⟩, fun _ _ => rfl⟩
    obtain ⟨hcoherent, hstanding⟩ := hstart.after rfl hlegacy hfront
      (History.modelAfter?_of_applyAll hl (userId user)) hm
    exact ⟨hcoherent.alike, hstanding⟩
  · have hm := History.modelAfter?_of_applyAll happly f
    rw [History.modelAfter?_append, modelAfter?_migrateEvents hf hfront,
      Option.bind_eq_some_iff] at hm
    exact hm
  · rw [created_migrateEvents hfront]
    exact Bool.or_false _

end MeetingLedger.Migration.CommitteeManagement
