import MeetingLedger.Proofs.Migration.Management.Committees

/-!
# Managers of committees after the step

A position tells a committee about the users whose part changed in it, but only if the committee
exists; a change in a position without the committee is not made up for later.
-/

namespace MeetingLedger.Migration.CommitteeManagement

/-- Whether some event changes whether a user manages a committee, events from a history on. -/
def changesManagement (user committee : UInt64) : History → List Event → Bool
  | _, [] => false
  | h, e :: es =>
    let next := (h.apply e).history
    (manages (h.models.get? (userId user)) committee !=
        manages (next.models.get? (userId user)) committee) ||
      changesManagement user committee next es

/-- Whether a committee exists for the changes of a position: it is not deleted at the start of the
position, or it is created in it. -/
def isPresent (h : History) (committee : UInt64) (p : Position) : Bool :=
  h.hasLive (committeeFqid committee) || p.events.any (createsCommittee committee)

/-- Whether an event makes the step look for the committees of a user among the users that are not
deleted. -/
def looksUp (user : UInt64) (e : Event) : Bool :=
  e.fqid == userId user && (e.isDeletion || e.fields?.any hasLevels)

/-- A standing is the one of a user before the step, who lists the committee after it as well. -/
structure Standing.Follows (st : Standing) (l : Option Model) (committee : UInt64) : Prop where
  live : st.live = l.any (!·.deleted)
  holds : st.holds = holdsLevel l committee
  lists : st.lists = st.holds

/-- Unless the user does not hold the level, the step finds the committee whenever it looks for the
committees of the user during some events. -/
def Standing.Finds (wasDeleted : Bool) (user : UInt64) (st : Standing) (es : List Event) : Prop :=
  wasDeleted = true → st.remembered = false → st.holds = true → es.any (looksUp user) = false

section Machine

variable {wasDeleted : Bool} {user committee : UInt64} {e : Event} {es : List Event} {st : Standing}

theorem Standing.Finds.tail (hfinds : st.Finds wasDeleted user (e :: es)) :
    st.Finds wasDeleted user es := fun hdeleted hremembered hholds =>
  (Bool.or_eq_false_iff.1 (hfinds hdeleted hremembered hholds)).2

theorem Standing.Finds.found (hfinds : st.Finds wasDeleted user (e :: es))
    (hlists : st.lists = st.holds) (hlooks : looksUp user e = true) :
    st.found wasDeleted = st.lists := by
  cases hst : st.holds with
  | false => simp [Standing.found, hlists, hst]
  | true =>
    cases hdeleted : wasDeleted <;> cases hremembered : st.remembered <;>
      simp [Standing.found, hremembered]
    have hnone := hfinds hdeleted hremembered hst
    simp [hlooks] at hnone

theorem Standing.Finds.next (hfinds : st.Finds wasDeleted user (e :: es))
    (huser : e.fqid = userId user) :
    (st.next wasDeleted committee e).Finds wasDeleted user es := by
  intro hdeleted hremembered hst
  cases hwrites : writesLevel user committee e with
  | true => simp [next_of_writesLevel wasDeleted hwrites st] at hremembered
  | false =>
    obtain ⟨hkept, hremembered₁, -⟩ := next_of_not_writesLevel wasDeleted huser hwrites st
    rw [hremembered₁, Bool.or_eq_false_iff] at hremembered
    exact hfinds.tail hdeleted hremembered.1 (hkept ▸ hst)

/-- Writing the fields of a creation or an update takes the two down if it changes whether the user
manages the committee. -/
theorem Standing.Follows.write {l : Option Model} {l' : Model} {fields : Instance}
    (hst : st.Follows l committee) (hmanages : manages l committee = st.holds)
    (hl' : l'.deleted = false)
    (hlevel : holdsLevel (some l') committee = level committee fields st.holds)
    (hfound : hasLevels fields = true → st.found wasDeleted = st.lists) :
    (st.write wasDeleted committee fields).Follows (some l') committee ∧
      (st.write wasDeleted committee fields).flag =
        if manages l committee = manages (some l') committee then st.flag
        else some (manages (some l') committee) := by
  have hmanages' : manages (some l') committee = level committee fields st.holds := by
    rw [manages, hlevel]
    simp [hl']
  cases hlevels : hasLevels fields with
  | false =>
    have hsame : level committee fields st.holds = st.holds := by
      rw [level, get?_levelField_of_not_hasLevels hlevels]
      rfl
    refine ⟨⟨?_, ?_, ?_⟩, ?_⟩ <;>
      simp [Standing.write, hlevels, hl', hlevel, hmanages, hmanages', hsame, hst.lists]
  | true =>
    have hsees := hfound hlevels
    refine ⟨⟨?_, ?_, ?_⟩, ?_⟩ <;>
      simp [Standing.write, hlevels, hl', hlevel, hmanages, hmanages', hsees, hst.lists]

/-- An event of the user takes the two down exactly if it changes whether the user manages the
committee, as long as the step finds what it looks for. -/
theorem Standing.Follows.next {l : Option Model} {l' : Model} (hst : st.Follows l committee)
    (hnext : e.next? l = some l') (hlegacy : IsLegacy e) (huser : e.fqid = userId user)
    (hfound : looksUp user e = true → st.found wasDeleted = st.lists) :
    (st.next wasDeleted committee e).Follows (some l') committee ∧
      (st.next wasDeleted committee e).flag =
        if manages l committee = manages (some l') committee then st.flag
        else some (manages (some l') committee) := by
  have hcollection : e.fqid.collection = "user" := by rw [huser]; rfl
  have hlevel := holds_next? hlegacy hcollection hnext committee
  rw [← hst.holds] at hlevel
  cases e with
  | create f fields =>
    rcases l with _ | l <;> cases hnext
    exact hst.write (by rw [hst.holds]; rfl) rfl hlevel fun hlevels =>
      hfound (by simp [looksUp, huser, Event.fields?, hlevels])
  | update f fields =>
    rcases l with _ | ⟨i, _ | _⟩ <;> cases hnext
    exact hst.write (by rw [hst.holds]; rfl) rfl hlevel fun hlevels =>
      hfound (by simp [looksUp, huser, Event.fields?, hlevels])
  | listUpdate f add remove =>
    have hl' : l'.deleted = false := Event.deleted_of_next? hnext
    rcases l with _ | ⟨i, _ | _⟩ <;> try cases hnext
    have hsame : holdsLevel (some l') committee = st.holds := hlevel
    refine ⟨⟨by simp [Standing.next, hst.live, hl'], hsame.symm, hst.lists⟩, ?_⟩
    simp [Standing.next, hl', hsame, manages, ← hst.holds]
  | delete f =>
    have hsees := hfound (by simp [looksUp, huser, Event.isDeletion])
    rcases l with _ | ⟨i, _ | _⟩ <;> cases hnext
    refine ⟨⟨rfl, hst.holds, hst.lists⟩, ?_⟩
    have hholds : st.holds = holdsLevel (some ⟨i, false⟩) committee := hst.holds
    cases h : st.holds <;>
      simp [Standing.next, manages, hsees, hst.lists, h, ← hholds]
  | restore f =>
    rcases l with _ | ⟨i, _ | _⟩ <;> cases hnext
    refine ⟨⟨rfl, hst.holds, hst.lists⟩, ?_⟩
    have hholds : st.holds = holdsLevel (some ⟨i, false⟩) committee := hst.holds
    cases h : st.holds <;>
      simp [Standing.next, manages, hst.lists, h, ← hholds]

theorem manages_of_not_changes {es : List Event} {l l₁ : History}
    (hl : l.applyAll es = ⟨l₁, none⟩) (hsame : changesManagement user committee l es = false) :
    manages (l₁.models.get? (userId user)) committee =
      manages (l.models.get? (userId user)) committee := by
  induction es generalizing l with
  | nil =>
    cases hl
    rfl
  | cons e es ih =>
    obtain ⟨m, hm, hrest⟩ := History.applyAll_cons_eq_iff.1 hl
    rw [changesManagement, History.apply_eq_iff.2 ⟨m, hm, rfl⟩, Bool.or_eq_false_iff,
      bne_eq_false_iff_eq] at hsame
    exact (ih hrest hsame.2).trans hsame.1.symm

/-- As long as the step finds what it looks for, the list of the user follows the level, and what
events of a position take down is whether the user manages the committee in the end, unless they
never change that. -/
theorem Standing.Follows.after {l l₁ : History} (hl : l.applyAll es = ⟨l₁, none⟩)
    (hlegacy : ∀ e ∈ es, IsLegacy e) (hst : st.Follows (l.models.get? (userId user)) committee)
    (hfinds : st.Finds wasDeleted user es) :
    (st.after wasDeleted user committee es).lists = (st.after wasDeleted user committee es).holds ∧
      (st.after wasDeleted user committee es).flag =
        if changesManagement user committee l es then
          some (manages (l₁.models.get? (userId user)) committee)
        else st.flag := by
  induction es generalizing l st with
  | nil => exact ⟨hst.lists, rfl⟩
  | cons e es ih =>
    obtain ⟨m, hm, hrest⟩ := History.applyAll_cons_eq_iff.1 hl
    have hlegacyRest := fun d hd => hlegacy d (List.mem_cons_of_mem _ hd)
    rw [changesManagement, History.apply_eq_iff.2 ⟨m, hm, rfl⟩, Standing.after]
    by_cases huser : e.fqid = userId user
    · rw [huser] at hm
      obtain ⟨hst₁, hflag₁⟩ := hst.next hm (hlegacy e List.mem_cons_self) huser
        (hfinds.found hst.lists)
      have hslot : (⟨l.models.insert e.fqid m⟩ : History).models.get? (userId user) = some m := by
        rw [huser, SortedMap.get?_insert_self]
      obtain ⟨hlists, hflag⟩ := ih hrest hlegacyRest (hslot ▸ hst₁) (hfinds.next huser)
      rw [if_pos huser]
      refine ⟨hlists, ?_⟩
      rw [hflag, hflag₁, hslot]
      cases hchanges : changesManagement user committee ⟨l.models.insert e.fqid m⟩ es with
      | true => simp
      | false =>
        have hsame := manages_of_not_changes hrest hchanges
        rw [hslot] at hsame
        simp only [hsame, Bool.or_false, bne_iff_ne, ne_eq, ite_not]
        rfl
    · have hslot : (⟨l.models.insert e.fqid m⟩ : History).models.get? (userId user) =
          l.models.get? (userId user) := SortedMap.get?_insert_of_ne _ (Ne.symm huser) _
      obtain ⟨hlists, hflag⟩ := ih hrest hlegacyRest (hslot.symm ▸ hst) hfinds.tail
      rw [if_neg huser]
      refine ⟨hlists, ?_⟩
      rw [hflag, hslot]
      simp

end Machine

section Committee

variable {committee : UInt64} (user : UInt64)

theorem Alike.modelAfter? {f : Fqid} {es : List Event} {a b a' b' : Option Model} (h : Alike a b)
    (ha : History.modelAfter? f es a = some a') (hb : History.modelAfter? f es b = some b') :
    Alike a' b' := by
  induction es generalizing a b with
  | nil =>
    cases ha
    cases hb
    exact h
  | cons e es ih =>
    rw [History.modelAfter?] at ha hb
    split at ha
    · rename_i heq
      rw [if_pos heq] at hb
      obtain ⟨m, hm, ha⟩ := Option.bind_eq_some_iff.1 ha
      obtain ⟨n, hn, hb⟩ := Option.bind_eq_some_iff.1 hb
      refine ih ?_ ha hb
      rw [Alike, Option.map_some, Option.map_some, Event.deleted_of_next? hm,
        Event.deleted_of_next? hn]
    · rename_i hne
      rw [if_neg hne] at hb
      exact ih h ha hb

theorem Alike.any_live {a b : Option Model} (halike : Alike a b) :
    a.any (!·.deleted) = b.any (!·.deleted) := by
  cases a <;> cases b <;> simp_all [Alike]

theorem hasLive_eq (h : History) (f : Fqid) :
    h.hasLive f = (h.models.get? f).any (!·.deleted) := by
  rw [History.hasLive, History.get?]
  rcases h.models.get? f with _ | ⟨i, _ | _⟩ <;> rfl

theorem Alike.hasLive {h l : History} {f : Fqid}
    (halike : Alike (h.models.get? f) (l.models.get? f)) : h.hasLive f = l.hasLive f := by
  rw [hasLive_eq, hasLive_eq, halike.any_live]

theorem listsManager_eq (m : Option Model) :
    listsManager m user = (Json.ids (m.bind (·.fields.get? managersField))).contains user := by
  cases m <;> rfl

/-- Events from before the step leave the managers of their models alone. -/
theorem listsManager_modelAfter? {f : Fqid} {es : List Event} {m m' : Option Model}
    (hlegacy : ∀ e ∈ es, IsLegacy e) (hm : History.modelAfter? f es m = some m') :
    listsManager m' user = listsManager m user := by
  have hunnamed : ∀ e ∈ es, e.fqid = f → managersField ∉ fieldNames e := fun e he _ =>
    (hlegacy e he).managers_unknown
  rw [listsManager_eq, listsManager_eq, get?_modelAfter? hunnamed (by decide +kernel) hm]

theorem managersEvent?_eq (h : History) (created : IdSet) (committee : UInt64)
    (users : SortedMap UInt64 Bool) : managersEvent? h created committee users =
      if h.hasLive (committeeFqid committee) || created.contains committee then
        some (.listUpdate (committeeFqid committee)
          (Instance.idChange managersField (users.filter fun _ manages => manages == true).keys)
          (Instance.idChange managersField (users.filter fun _ manages => manages == false).keys))
      else none := rfl

/-- A committee is told about the users whose part changed: those who manage it now are added, the
others removed. -/
theorem listsManager_managersEvent? {h : History} {created : IdSet}
    {users : SortedMap UInt64 Bool} {e : Event} {m : Option Model} {m' : Model}
    (he : managersEvent? h created committee users = some e) (hnext : e.next? m = some m') :
    m'.deleted = false ∧ m.any (!·.deleted) = true ∧
      listsManager (some m') user = (users.get? user).getD (listsManager m user) := by
  have hside (manages : Bool) : user ∈ (users.filter fun _ b => b == manages).keys ↔
      users.get? user = some manages := by
    rw [SortedMap.mem_keys_iff, SortedMap.contains, SortedMap.get?_filter]
    cases users.get? user <;> simp
  rw [managersEvent?_eq] at he
  split at he
  · cases he
    rcases m with _ | ⟨i, _ | _⟩ <;> try cases hnext
    rw [Event.next?] at hnext
    split at hnext
    · rename_i hdone
      cases hnext
      refine ⟨rfl, rfl, ?_⟩
      have hmem := Instance.mem_idsAt_changeLists (Option.isNone_iff_eq_none.1 hdone) user
      rw [Bool.eq_iff_iff, listsManager, Option.any_some, List.contains_iff_mem]
      refine hmem.trans ?_
      rw [hside, hside, ← List.contains_iff_mem]
      rcases users.get? user with _ | _ | _ <;> simp [listsManager]
    · cases hnext
  · cases he

theorem modelAfter?_managersEvents (h : History) (s : State) (m : Option Model) :
    History.modelAfter? (committeeFqid committee) (managersEvents h s) m =
      ((s.managers.get? committee).bind (managersEvent? h s.created committee)).elim (some m)
        fun e => (e.next? m).map some := by
  have hinj : Function.Injective committeeFqid := fun _ _ heq => congrArg Fqid.id heq
  have hafter := History.modelAfter?_filterMap
    (fun c users e (he : managersEvent? h s.created c users = some e) => fqid_of_managersEvent? he)
    hinj s.managers committee m
  exact hafter

/-- What the changes to the managers make of a committee: they tell it about the users that were
taken down if it exists, and they never delete or restore it. -/
theorem listsManager_managersEvents {h : History} {s : State} {m m' : Option Model}
    (hm : History.modelAfter? (committeeFqid committee) (managersEvents h s) m = some m') :
    Alike m' m ∧ listsManager m' user =
      if h.hasLive (committeeFqid committee) || s.created.contains committee then
        (s.flag user committee).getD (listsManager m user)
      else listsManager m user := by
  rw [modelAfter?_managersEvents] at hm
  have hflag : s.flag user committee = (s.managers.get? committee).bind (·.get? user) := rfl
  cases husers : s.managers.get? committee with
  | none =>
    rw [husers] at hm hflag
    obtain rfl : m = m' := Option.some.inj hm
    exact ⟨rfl, by simp [hflag]⟩
  | some users =>
    rw [husers, Option.bind_some] at hm hflag
    cases hevent : managersEvent? h s.created committee users with
    | none =>
      rw [hevent] at hm
      obtain rfl : m = m' := Option.some.inj hm
      rw [managersEvent?_eq] at hevent
      split at hevent
      · cases hevent
      · rename_i habsent
        exact ⟨rfl, by rw [if_neg habsent]⟩
    | some e =>
      rw [hevent] at hm
      obtain ⟨m₁, hnext, rfl⟩ := Option.map_eq_some_iff.1 hm
      obtain ⟨hlive₁, hlive, hlists⟩ := listsManager_managersEvent? user hevent hnext
      rw [managersEvent?_eq] at hevent
      split at hevent
      · rename_i hexists
        refine ⟨?_, by rw [if_pos hexists, hlists, hflag]⟩
        rcases m with _ | ⟨i, _ | _⟩ <;> simp_all [Alike]
      · cases hevent

end Committee

variable {h h₁ l l₁ : History}

/-- The managers of a committee at the end of a position, from those at its start. -/
theorem Ends.listsManager {p : Position} {s : State} (hends : Ends h l p h₁ l₁ s)
    (hlegacy : ∀ e ∈ p.events, IsLegacy e) (hl : l.applyAll p.events = ⟨l₁, none⟩)
    {committee : UInt64}
    (halike : Alike (h.models.get? (committeeFqid committee))
      (l.models.get? (committeeFqid committee))) (user : UInt64) :
    Alike (h₁.models.get? (committeeFqid committee)) (l₁.models.get? (committeeFqid committee)) ∧
      listsManager (h₁.models.get? (committeeFqid committee)) user =
        if isPresent l committee p then
          (s.flag user committee).getD (listsManager (h.models.get? (committeeFqid committee)) user)
        else listsManager (h.models.get? (committeeFqid committee)) user := by
  obtain ⟨m, hm, hrest⟩ := hends.others (committeeFqid committee) (by simp [committeeFqid])
  have hfront := listsManager_modelAfter? user hlegacy hm
  have halikeFront := halike.modelAfter? hm (History.modelAfter?_of_applyAll hl _)
  obtain ⟨halikeRest, hlists⟩ := listsManager_managersEvents user hrest
  refine ⟨halikeRest.trans halikeFront, ?_⟩
  rw [hlists, hfront, halike.hasLive, hends.created, isPresent]

end MeetingLedger.Migration.CommitteeManagement
