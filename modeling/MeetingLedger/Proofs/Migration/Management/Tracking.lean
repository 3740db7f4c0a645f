import MeetingLedger.Proofs.Migration.Management.Readable

/-!
# What the step keeps track of about a user and a committee

The step looks at many models at once, but what it does about a pair of a user and a committee
depends on that pair alone: on the events of the user in the position and on whether the user lists
the committee at its start. The part of the step about the pair is the small machine of this module.
-/

namespace MeetingLedger.Migration.CommitteeManagement

/-- A user and a committee in the middle of a position, as far as the step keeps track of them. -/
structure Tracking where
  /-- Whether the step remembers the committees of the user. -/
  remembered : Bool
  /-- What the step took down about the two, if anything. -/
  flag : Option Bool
  /-- Whether the user lists the committee after the migration. -/
  lists : Bool

namespace Tracking

variable (wasDeleted : Bool) (user committee : UInt64)

def found (t : Tracking) : Bool := t.lists && (t.remembered || !wasDeleted)

def write (fields : Instance) (t : Tracking) : Tracking :=
  if (levelsOf fields).isEmpty then t
  else
    let lists := levelIn committee fields (t.found wasDeleted)
    { remembered := true
      flag := if t.found wasDeleted = lists then t.flag else some lists
      lists }

def next (t : Tracking) : Event → Tracking
  | .create _ fields | .update _ fields => t.write wasDeleted committee fields
  | .listUpdate .. => t
  | .delete _ => { t with flag := if t.found wasDeleted then some false else t.flag }
  | .restore _ => { t with flag := if t.lists then some true else t.flag }

def after : List Event → Tracking → Tracking
  | [], t => t
  | e :: es, t => after es (if e.fqid = userId user then t.next wasDeleted committee e else t)

end Tracking

def tracking (s : State) (migrated : Option Model) (user committee : UInt64) : Tracking where
  remembered := (s.managed.get? user).isSome
  flag := s.flag user committee
  lists := listsCommittee migrated committee

/-- Two versions of a model exist both or neither, deleted both or neither. -/
def Alike (a b : Option Model) : Prop := a.map (·.deleted) = b.map (·.deleted)

/-- What the step knows about a user within a position: the version before the step and the one
after it are alike, the committees that the step remembers are those that the user lists, and
as long as it remembers none the user lists what was recorded at the start of the position. -/
structure Coherent (user : UInt64) (recorded : Option Model) (s : State)
    (migrated legacy : Option Model) : Prop where
  alike : Alike migrated legacy
  remembered : ∀ managed, s.managed.get? user = some managed →
    ∀ committee, managed.contains committee = listsCommittee migrated committee
  recorded : s.managed.get? user = none →
    ∀ committee, listsCommittee migrated committee = listsCommittee recorded committee

theorem contains_managedBefore (s : State) (user : UInt64) (i : Option Instance)
    (committee : UInt64) : (s.managedBefore user i).contains committee =
      (s.managed.get? user).elim (i.any fun i => (i.idsAt managedField).contains committee)
        (·.contains committee) := by
  rw [State.managedBefore]
  cases s.managed.get? user with
  | some managed => rfl
  | none =>
    rw [Option.getD_none, IdSet.contains_ofIds]
    cases i <;> rfl

section Step

variable {h : History} {s s' : State} {recorded m m' l : Option Model} {l' : Model}
  {user : UInt64} {e : Event}

/-- What the step finds with the recorded version of a user, deleted versions left out. -/
theorem Coherent.contains_managedBefore_get? (hc : Coherent user recorded s m l)
    (hrecorded : h.models.get? (userId user) = recorded) (committee : UInt64) :
    (s.managedBefore user (h.get? (userId user))).contains committee =
      (tracking s m user committee).found (recorded.any (·.deleted)) := by
  rw [contains_managedBefore, Tracking.found, tracking]
  cases hmanaged : s.managed.get? user with
  | some managed => simp [hc.remembered managed hmanaged]
  | none =>
    rw [hc.recorded hmanaged, History.get?, hrecorded]
    rcases recorded with _ | ⟨i, _ | _⟩ <;> simp [listsCommittee]

theorem Coherent.contains_managedBefore_getIncludingDeleted? (hc : Coherent user recorded s m l)
    (hrecorded : h.models.get? (userId user) = recorded) (committee : UInt64) :
    (s.managedBefore user (h.getIncludingDeleted? (userId user))).contains committee =
      listsCommittee m committee := by
  rw [contains_managedBefore]
  cases hmanaged : s.managed.get? user with
  | some managed => exact hc.remembered managed hmanaged committee
  | none =>
    rw [hc.recorded hmanaged, History.getIncludingDeleted?, hrecorded]
    cases recorded <;> rfl

theorem listsCommittee_of_get? {i : Instance}
    (hi : i.get? managedField = m.bind (·.fields.get? managedField)) (committee : UInt64) :
    listsCommittee (some ⟨i, false⟩) committee = listsCommittee m committee := by
  cases m <;> simp [listsCommittee, Instance.idsAt, hi, Json.ids]

/-- A user with other fields, but with the same list of committees, and none the wiser. -/
theorem Coherent.relist (hc : Coherent user recorded s m l) {i : Instance}
    (hi : i.get? managedField = m.bind (·.fields.get? managedField)) (hl' : l'.deleted = false) :
    Coherent user recorded s (some ⟨i, false⟩) (some l') := by
  refine ⟨by simp [Alike, hl'], fun managed hmanaged committee => ?_, fun hmanaged committee => ?_⟩
  · rw [listsCommittee_of_get? hi]
    exact hc.remembered managed hmanaged committee
  · rw [listsCommittee_of_get? hi]
    exact hc.recorded hmanaged committee

theorem Coherent.track_write (hc : Coherent user recorded s m l)
    (hrecorded : h.models.get? (userId user) = recorded) (hreadable : IsReadable e)
    (huser : e.fqid = userId user) {fields i : Instance} (hfields : e.fields? = some fields)
    {isCreation : Bool} (hnew : isCreation = true → m = none) {r : Option Instance}
    (hi : i.get? managedField = m.bind (·.fields.get? managedField))
    (hdone : migrateFields (userId user) fields isCreation h s = .done r s') {il : Instance} :
    Coherent user recorded s' (some ⟨i.merge (r.getD fields), false⟩) (some ⟨il, false⟩) ∧
      ∀ committee, tracking s' (some ⟨i.merge (r.getD fields), false⟩) user committee =
        (tracking s m user committee).write (recorded.any (·.deleted)) committee fields := by
  have hcollection : e.fqid.collection = "user" := by rw [huser]; rfl
  have hunknown := get?_eq_none_of_not_mem_fieldNames hreadable.managed_unknown hfields
  cases hempty : (levelsOf fields).isEmpty with
  | true =>
    obtain ⟨r₀, hdone₀, hsame⟩ := hreadable.migrateFields_of_isEmpty hcollection hfields hempty
    obtain ⟨rfl, rfl⟩ := Outcome.done_eq_done_iff.1 (hdone.symm.trans hdone₀)
    have hmerged : (i.merge (r.getD fields)).get? managedField =
        m.bind (·.fields.get? managedField) :=
      (Instance.get?_merge_of_none ((hsame _ isFormer_managedField).trans hunknown)).trans hi
    refine ⟨hc.relist hmerged rfl, fun committee => ?_⟩
    simp [tracking, Tracking.write, hempty, listsCommittee_of_get? hmerged]
  | false =>
    obtain ⟨managed, s₀, hdone₀, hmanaged, hlevels, hflag⟩ :=
      hreadable.migrateFields_of_levels hcollection hfields hempty
    obtain ⟨rfl, rfl⟩ := Outcome.done_eq_done_iff.1 (hdone.symm.trans hdone₀)
    have hbefore (committee : UInt64) : (before (userId user) fields isCreation h s).contains
        committee = (tracking s m user committee).found (recorded.any (·.deleted)) := by
      cases isCreation with
      | true =>
        simp [before, IdSet.contains_ofIds, Instance.idsAt, hunknown, Json.ids, Tracking.found,
          tracking, listsCommittee, hnew rfl]
      | false => exact hc.contains_managedBefore_get? hrecorded committee
    have hwritten (committee : UInt64) : listsCommittee (some ⟨i.merge (writeManaged isCreation
        managed (fields.filter fun name _ => !isFormer name)), false⟩) committee =
          managed.contains committee := by
      refine contains_idsAt_writeManaged (fun hcreation => ?_) committee
      simp [hi, hnew hcreation]
    refine ⟨⟨rfl, fun managed' hget committee => ?_, fun hget => ?_⟩, fun committee => ?_⟩
    · rw [hmanaged] at hget
      obtain rfl : managed = managed' := by simpa [userId] using hget
      exact (hwritten committee).symm
    · simp [hmanaged, userId] at hget
    · rw [Tracking.write, hempty]
      simp only [tracking, Option.getD_some, hwritten, hflag, hlevels, hbefore, hmanaged]
      simp only [userId, SortedMap.get?_insert_self, Option.isSome_some, true_and, ne_eq, ite_not]
      congr

theorem Coherent.flagged {i il : Instance} {was manages : Bool} {ids : List UInt64}
    {found : UInt64 → Bool} (hc : Coherent user recorded s (some ⟨i, was⟩) l)
    (hids : ∀ committee, committee ∈ ids ↔ found committee = true) :
    Coherent user recorded (s.setManagers user manages ids) (some ⟨i, !was⟩) (some ⟨il, !was⟩) ∧
      ∀ committee, tracking (s.setManagers user manages ids) (some ⟨i, !was⟩) user committee =
        { tracking s (some ⟨i, was⟩) user committee with
          flag := if found committee then some manages else s.flag user committee } := by
  refine ⟨⟨rfl, fun managed hmanaged committee => ?_, fun hmanaged committee => ?_⟩,
    fun committee => ?_⟩
  · rw [State.managed_setManagers] at hmanaged
    exact hc.remembered managed hmanaged committee
  · rw [State.managed_setManagers] at hmanaged
    exact hc.recorded hmanaged committee
  · simp [tracking, State.flag_setManagers, hids, listsCommittee]

/-- What a change of lists leaves of the list of committees. -/
theorem migrateLists_spec {add remove : ListChanges} {r : Option (List Event)} {i : Instance}
    (hadd : add.get? managedField = none) (hremove : remove.get? managedField = none)
    (hlists : migrateLists (userId user) add remove = r)
    (hm : History.modelAfter? (userId user) (r.getD [.listUpdate (userId user) add remove])
      (some ⟨i, false⟩) = some m') :
    ∃ i', m' = some ⟨i', false⟩ ∧ i'.get? managedField = i.get? managedField := by
  have hchange {add remove : ListChanges} (hadd : add.get? managedField = none)
      (hremove : remove.get? managedField = none)
      (hm : History.modelAfter? (userId user) [.listUpdate (userId user) add remove]
        (some ⟨i, false⟩) = some m') :
      ∃ i', m' = some ⟨i', false⟩ ∧ i'.get? managedField = i.get? managedField := by
    simp only [History.modelAfter?, Event.fqid, if_true, Event.next?] at hm
    split at hm
    · exact ⟨_, (Option.some.inj hm).symm, Instance.get?_changeLists hadd hremove⟩
    · cases hm
  have hkept {changes : ListChanges} (hnone : changes.get? managedField = none) :
      (changes.filter fun name _ => !isFormer name).get? managedField = none := by
    simp [SortedMap.get?_filter, hnone]
  subst hlists
  rw [migrateLists] at hm
  split at hm
  · simp only at hm
    split at hm
    · exact ⟨i, (Option.some.inj hm).symm, rfl⟩
    · exact hchange (hkept hadd) (hkept hremove) hm
  · exact hchange hadd hremove hm

theorem migrateEvent_of_user (huser : e.fqid.collection = "user") :
    migrateEvent e h s = migrateUserEvent h s e := if_pos huser

theorem modelAfter?_migratedCreation {f : Fqid} {fields : Instance} {r : Option Instance}
    (hm : History.modelAfter? f ((r.map fun fields => [Event.create f fields]).getD
      [.create f fields]) none = some m') :
    m' = some ⟨History.created f (r.getD fields), false⟩ := by
  cases r <;>
    simpa [History.modelAfter?, Event.fqid, Event.next?, eq_comm (a := m')] using hm

theorem modelAfter?_migratedUpdate {f : Fqid} {fields i : Instance} {r : Option Instance}
    (hm : History.modelAfter? f ((r.map fun fields =>
      if fields.isEmpty then [] else [Event.update f fields]).getD [.update f fields])
        (some ⟨i, false⟩) = some m') :
    m' = some ⟨i.merge (r.getD fields), false⟩ := by
  rcases r with _ | fields'
  · simpa [History.modelAfter?, Event.fqid, Event.next?, eq_comm (a := m')] using hm
  · by_cases hempty : fields'.isEmpty = true
    · simpa [History.modelAfter?, hempty, Instance.merge_of_isEmpty hempty, eq_comm (a := m')] using hm
    · simpa [History.modelAfter?, hempty, Event.fqid, Event.next?, eq_comm (a := m')] using hm

/-- The step at one event of the user. -/
theorem Coherent.track (hc : Coherent user recorded s m l)
    (hrecorded : h.models.get? (userId user) = recorded) (hreadable : IsReadable e)
    (huser : e.fqid = userId user) {r : Option (List Event)}
    (hdone : migrateEvent e h s = .done r s') (hnext : e.next? l = some l')
    (hm : History.modelAfter? (userId user) (r.getD [e]) m = some m') :
    Coherent user recorded s' m' (some l') ∧ ∀ committee, tracking s' m' user committee =
      (tracking s m user committee).next (recorded.any (·.deleted)) committee e := by
  have hcollection : e.fqid.collection = "user" := by rw [huser]; rfl
  rw [migrateEvent_of_user hcollection] at hdone
  cases e with
  | create f fields =>
    obtain rfl : f = userId user := huser
    obtain ⟨r₀, s₀, hfields, hr⟩ := Outcome.andThen_eq_done_iff.1 hdone
    obtain ⟨rfl, rfl⟩ := Outcome.done_eq_done_iff.1 hr
    rcases l with _ | l <;> cases hnext
    rcases m with _ | m <;> cases hc.alike
    obtain rfl := modelAfter?_migratedCreation hm
    exact hc.track_write hrecorded hreadable rfl rfl (fun _ => rfl)
      (SortedMap.get?_insert_of_ne _ (by decide +kernel) _) hfields
  | update f fields =>
    obtain rfl : f = userId user := huser
    obtain ⟨r₀, s₀, hfields, hr⟩ := Outcome.andThen_eq_done_iff.1 hdone
    obtain ⟨rfl, rfl⟩ := Outcome.done_eq_done_iff.1 hr
    rcases l with _ | ⟨il, _ | _⟩ <;> cases hnext
    rcases m with _ | ⟨i, _ | _⟩ <;> cases hc.alike
    obtain rfl := modelAfter?_migratedUpdate hm
    exact hc.track_write hrecorded hreadable rfl rfl (by simp) rfl hfields
  | listUpdate f add remove =>
    obtain rfl : f = userId user := huser
    obtain ⟨hr, rfl⟩ := Outcome.done_eq_done_iff.1 hdone
    rcases l with _ | ⟨il, _ | _⟩ <;> try cases hnext
    rcases m with _ | ⟨i, _ | _⟩ <;> cases hc.alike
    obtain ⟨i', rfl, hi'⟩ := migrateLists_spec
      (SortedMap.get?_eq_none_iff.2 fun hmem =>
        hreadable.managed_unknown (List.mem_append_left _ hmem))
      (SortedMap.get?_eq_none_iff.2 fun hmem =>
        hreadable.managed_unknown (List.mem_append_right _ hmem)) hr hm
    refine ⟨hc.relist hi' (Event.deleted_of_next? hnext), fun committee => ?_⟩
    simp [tracking, Tracking.next, listsCommittee, Instance.idsAt, hi']
  | delete f =>
    obtain rfl : f = userId user := huser
    obtain ⟨rfl, rfl⟩ := Outcome.done_eq_done_iff.1 hdone
    rcases l with _ | ⟨il, _ | _⟩ <;> cases hnext
    rcases m with _ | ⟨i, _ | _⟩ <;> cases hc.alike
    obtain rfl : some ⟨i, true⟩ = m' :=
      Option.some.inj ((History.modelAfter?_singleton (.delete (userId user)) _).symm.trans hm)
    refine hc.flagged fun committee => ?_
    rw [SortedMap.mem_keys_iff]
    exact (congrArg (· = true) (hc.contains_managedBefore_get? hrecorded committee)).to_iff
  | restore f =>
    obtain rfl : f = userId user := huser
    obtain ⟨rfl, rfl⟩ := Outcome.done_eq_done_iff.1 hdone
    rcases l with _ | ⟨il, _ | _⟩ <;> cases hnext
    rcases m with _ | ⟨i, _ | _⟩ <;> cases hc.alike
    obtain rfl : some ⟨i, false⟩ = m' :=
      Option.some.inj ((History.modelAfter?_singleton (.restore (userId user)) _).symm.trans hm)
    refine hc.flagged fun committee => ?_
    rw [SortedMap.mem_keys_iff]
    exact (congrArg (· = true)
      (hc.contains_managedBefore_getIncludingDeleted? hrecorded committee)).to_iff

end Step

end MeetingLedger.Migration.CommitteeManagement
