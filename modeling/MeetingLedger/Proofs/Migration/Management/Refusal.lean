import MeetingLedger.Proofs.Migration.Management.Managers
import MeetingLedger.Proofs.Migration.Management.Rewritten

/-!
# Logs that the step refuses

The changes to the managers of committees follow the events of a position, but the step decides
about them by what there was before these events. A committee that exists at the start of the
position or is created in it, and is deleted at its end, is told about its managers all the same,
and refuses the change. This is the only thing that keeps the step from migrating a log that it can
read.
-/

namespace MeetingLedger.Migration.CommitteeManagement

def Listed (committee : Option Model) : Prop :=
  ∀ m, committee = some m → (m.fields.listAt? managersField).isSome = true

/-- What the step keeps track of about a user and a committee at the end of a position, from whether
the user lists the committee at its start. -/
def trackingIn (h : History) (user committee : UInt64) (lists : Bool) (p : Position) : Tracking :=
  Tracking.after (h.isDeleted (userId user)) user committee p.events ⟨false, none, lists⟩

/-- Whether some position makes the step tell a committee about a user although the committee is
deleted at the end of the position. The history is the one before the positions, and the user lists
the committee in it or does not. -/
def tellsDeleted (user committee : UInt64) : History → Bool → List Position → Bool
  | _, _, [] => false
  | h, lists, p :: ps =>
    let next := (h.applyAll p.events).history
    let t := trackingIn h user committee lists p
    (t.flag.isSome && isPresent h committee p && !next.hasLive (committeeFqid committee)) ||
      tellsDeleted user committee next t.lists ps

section Taken

variable {h : History} {s s' t : State} {es events : List Event}

/-- A committee is taken down with some user only. -/
def State.NamesUsers (s : State) : Prop :=
  ∀ committee, (s.managers.get? committee).isSome = true →
    ∃ user, (s.flag user committee).isSome = true

theorem State.NamesUsers.setManagers (hs : s.NamesUsers) (user : UInt64) (manages : Bool)
    (committees : List UInt64) : (s.setManagers user manages committees).NamesUsers := by
  induction committees generalizing s with
  | nil => exact hs
  | cons c committees ih =>
    refine @ih (s.setManager user manages c) fun committee hsome => ?_
    by_cases hc : committee = c
    · exact ⟨user, by rw [State.flag_setManager, if_pos ⟨rfl, hc⟩]; rfl⟩
    · rw [State.setManager, SortedMap.get?_update, if_neg hc] at hsome
      obtain ⟨user', hflag⟩ := hs committee hsome
      exact ⟨user', by rw [State.flag_setManager, if_neg fun h => hc h.2]; exact hflag⟩

theorem namesUsers_migrateFields {f : Fqid} {fields : Instance} {isCreation : Bool}
    {r : Option Instance} (hs : s.NamesUsers)
    (hdone : migrateFields f fields isCreation h s = .done r s') : s'.NamesUsers := by
  rw [migrateFields] at hdone
  split at hdone
  · cases hdone
  · dsimp only at hdone
    split at hdone
    · rwa [← (Outcome.done_eq_done_iff.1 hdone).2]
    · split at hdone
      · rwa [← (Outcome.done_eq_done_iff.1 hdone).2]
      · rw [← (Outcome.done_eq_done_iff.1 hdone).2]
        exact (State.NamesUsers.setManagers hs _ _ _).setManagers _ _ _

theorem namesUsers_migrateEvent {e : Event} {r : Option (List Event)} (hs : s.NamesUsers)
    (hdone : migrateEvent e h s = .done r s') : s'.NamesUsers := by
  by_cases huser : e.fqid.collection = "user"
  · rw [migrateEvent_of_user huser] at hdone
    cases e with
    | create f fields | update f fields =>
      obtain ⟨r₀, s₀, hfields, hr⟩ := Outcome.andThen_eq_done_iff.1 hdone
      obtain ⟨-, rfl⟩ := Outcome.done_eq_done_iff.1 hr
      exact namesUsers_migrateFields hs hfields
    | listUpdate f add remove =>
      obtain ⟨-, rfl⟩ := Outcome.done_eq_done_iff.1 hdone
      exact hs
    | delete f | restore f =>
      obtain ⟨-, rfl⟩ := Outcome.done_eq_done_iff.1 hdone
      exact hs.setManagers _ _ _
  · obtain ⟨-, -, hmanagers, -⟩ := replacement_of_ne_user huser hdone
    simpa only [State.NamesUsers, State.flag, hmanagers] using hs

theorem namesUsers_migrateEvents (hs : s.NamesUsers)
    (hrun : step.migrateEvents h es s = .done events t) : t.NamesUsers := by
  induction es generalizing s events with
  | nil =>
    obtain ⟨-, rfl⟩ := Outcome.done_eq_done_iff.1 hrun
    exact hs
  | cons e es ih =>
    obtain ⟨r, s₁, rest, hfirst, hrest, -⟩ := EventStep.migrateEvents_cons_eq_done_iff.1 hrun
    exact ih (namesUsers_migrateEvent hs hfirst) hrest

theorem State.NamesUsers.isSome_iff (hs : s.NamesUsers) (committee : UInt64) :
    (s.managers.get? committee).isSome = true ↔
      ∃ user, (s.flag user committee).isSome = true := by
  refine ⟨hs committee, ?_⟩
  rintro ⟨user, hflag⟩
  rw [State.flag] at hflag
  cases hget : s.managers.get? committee with
  | none => simp [hget] at hflag
  | some users => rfl

end Taken

section Committee

variable {h : History} {s : State} {committee : UInt64} {m m' : Option Model}

/-- Events from before the step leave the field for the managers with a list. -/
theorem Listed.modelAfter? {f : Fqid} {es : List Event} (hlisted : Listed m)
    (hreadable : ∀ e ∈ es, IsReadable e) (hm : History.modelAfter? f es m = some m') :
    Listed m' := by
  have hunnamed : ∀ e ∈ es, e.fqid = f → managersField ∉ fieldNames e := fun e he _ =>
    (hreadable e he).managers_unknown
  have hsame := get?_modelAfter? hunnamed (by decide +kernel) hm
  rintro n rfl
  rw [Option.bind_some] at hsame
  rw [Instance.listAt?, hsame]
  cases m with
  | none => rfl
  | some m => exact hlisted m rfl

/-- A model takes a change of its managers exactly if it is not deleted. -/
theorem next?_managersChange (hlisted : Listed m) (f : Fqid) (added removed : List UInt64) :
    let e : Event := .listUpdate f (Instance.idChange managersField added)
      (Instance.idChange managersField removed)
    ((∃ m', e.next? m = some m') ↔ m.any (!·.deleted) = true) ∧
      ∀ m', e.next? m = some m' →
        Listed (some m') ∧ Model.AgreeOff (rewritten "committee") (some m') m := by
  rcases m with _ | ⟨i, _ | _⟩
  · simp [Event.next?]
  · obtain ⟨hdone, hlist⟩ := Instance.changeLists_idChange (hlisted _ rfl) added removed
    simp only [Event.next?, hdone, Option.isNone_none, if_true]
    refine ⟨⟨fun _ => rfl, fun _ => ⟨_, rfl⟩⟩, ?_⟩
    rintro m' hm'
    cases hm'
    refine ⟨fun n hn => ?_, .present false fun name hname => ?_⟩
    · cases hn
      exact hlist
    · have hne : name ≠ managersField := by
        rintro rfl
        exact absurd hname (by decide +kernel)
      exact Instance.get?_changeLists (Instance.get?_idChange_of_ne hne added)
        (Instance.get?_idChange_of_ne hne removed)
  · simp [Event.next?]

/-- A committee takes the changes to its managers exactly if there are none or it is not deleted,
and they touch its managers only. -/
theorem modelAfter?_managersEvents_iff (hlisted : Listed m) :
    ((∃ m', History.modelAfter? (committeeFqid committee) (managersEvents h s) m = some m') ↔
      ((s.managers.get? committee).isSome = true →
        (h.hasLive (committeeFqid committee) || s.created.contains committee) = true →
          m.any (!·.deleted) = true)) ∧
      ∀ m', History.modelAfter? (committeeFqid committee) (managersEvents h s) m = some m' →
        Listed m' ∧ Model.AgreeOff (rewritten "committee") m' m := by
  have hkept : ∀ m', some m = some m' → Listed m' ∧ Model.AgreeOff (rewritten "committee") m' m := by
    rintro m' hm'
    cases hm'
    exact ⟨hlisted, .refl m⟩
  rw [modelAfter?_managersEvents]
  cases husers : s.managers.get? committee with
  | none => exact ⟨⟨fun _ => nofun, fun _ => ⟨m, rfl⟩⟩, hkept⟩
  | some users =>
    rw [Option.bind_some, managersEvent?_eq]
    by_cases hpresent : (h.hasLive (committeeFqid committee) || s.created.contains committee) = true
    · obtain ⟨hiff, hleft⟩ := next?_managersChange hlisted (committeeFqid committee)
        (users.filter fun _ manages => manages == true).keys
        (users.filter fun _ manages => manages == false).keys
      rw [if_pos hpresent, Option.elim_some]
      refine ⟨⟨?_, ?_⟩, ?_⟩
      · rintro ⟨m', hm'⟩ _ _
        obtain ⟨n, hn, -⟩ := Option.map_eq_some_iff.1 hm'
        exact hiff.1 ⟨n, hn⟩
      · intro hlive
        obtain ⟨n, hn⟩ := hiff.2 (hlive rfl hpresent)
        exact ⟨some n, by rw [hn]; rfl⟩
      · intro m' hm'
        obtain ⟨n, hn, rfl⟩ := Option.map_eq_some_iff.1 hm'
        exact hleft n hn
    · rw [if_neg hpresent, Option.elim_none]
      exact ⟨⟨fun _ _ h => absurd h hpresent, fun _ => ⟨m, rfl⟩⟩, hkept⟩

end Committee

theorem alike_of_agreeOff {written : String → Bool} {a b : Option Model}
    (h : Model.AgreeOff written a b) : Alike a b := by
  cases h <;> rfl

structure Parallel (h l : History) : Prop where
  agree : ∀ f, Model.AgreeOff (rewritten f.collection) (h.models.get? f) (l.models.get? f)
  listed : ∀ committee, Listed (h.models.get? (committeeFqid committee))

theorem Parallel.empty : Parallel .empty .empty :=
  ⟨fun _ => .absent, by rintro committee m ⟨⟩⟩

section Position

variable {h h₁ l l₁ : History} {p : Position} {front : List Event} {s : State}

theorem Parallel.exists_modelAfter? (hpar : Parallel h l) (hreadable : ∀ e ∈ p.events, IsReadable e)
    (hfront : step.migrateEvents h p.events .initial = .done front s)
    (hl : l.applyAll p.events = ⟨l₁, none⟩) (f : Fqid) :
    ∃ m, History.modelAfter? f front (h.models.get? f) = some m ∧
      Model.AgreeOff (rewritten f.collection) m (l₁.models.get? f) :=
  agreeOff_of_migrateEvents hreadable hfront (hpar.agree f) (History.modelAfter?_of_applyAll hl f)

theorem Parallel.tracking_eq (hpar : Parallel h l) (hreadable : ∀ e ∈ p.events, IsReadable e)
    (hfront : step.migrateEvents h p.events .initial = .done front s)
    (hl : l.applyAll p.events = ⟨l₁, none⟩) {user : UInt64} {m : Option Model}
    (hm : History.modelAfter? (userId user) front (h.models.get? (userId user)) = some m)
    (committee : UInt64) : tracking s m user committee = trackingIn l user committee
      (listsCommittee (h.models.get? (userId user)) committee) p := by
  have halike := alike_of_agreeOff (hpar.agree (userId user))
  have hstart : Coherent user (h.models.get? (userId user)) .initial
      (h.models.get? (userId user)) (l.models.get? (userId user)) :=
    ⟨halike, by rintro managed ⟨⟩, fun _ _ => rfl⟩
  rw [(hstart.track_after rfl hreadable hfront (History.modelAfter?_of_applyAll hl _) hm).2,
    trackingIn, ← halike.isDeleted]
  rfl

/-- The committees with changes to their managers are those about which the step noted something. -/
theorem Parallel.isSome_managers_iff (hpar : Parallel h l)
    (hreadable : ∀ e ∈ p.events, IsReadable e)
    (hfront : step.migrateEvents h p.events .initial = .done front s)
    (hl : l.applyAll p.events = ⟨l₁, none⟩) (committee : UInt64) :
    (s.managers.get? committee).isSome = true ↔ ∃ user, (trackingIn l user committee
      (listsCommittee (h.models.get? (userId user)) committee) p).flag.isSome = true := by
  have hnames : s.NamesUsers := namesUsers_migrateEvents (by rintro committee ⟨⟩) hfront
  rw [hnames.isSome_iff]
  apply exists_congr
  intro user
  obtain ⟨m, hm, -⟩ := hpar.exists_modelAfter? hreadable hfront hl (userId user)
  rw [← hpar.tracking_eq hreadable hfront hl hm]
  rfl

theorem Parallel.isPresent_eq (hpar : Parallel h l)
    (hfront : step.migrateEvents h p.events .initial = .done front s) (committee : UInt64) :
    (h.hasLive (committeeFqid committee) || s.created.contains committee) =
      isPresent l committee p := by
  rw [isPresent, (alike_of_agreeOff (hpar.agree (committeeFqid committee))).hasLive,
    created_migrateEvents hfront]
  exact congrArg _ (Bool.or_false _)

theorem modelAfter?_managersEvents_of_ne {f : Fqid} (hf : f.collection ≠ "committee")
    (h : History) (s : State) (m : Option Model) :
    History.modelAfter? f (managersEvents h s) m = some m := by
  refine History.modelAfter?_of_forall_ne (fun e he heq => hf ?_) m
  obtain ⟨d, -, hd⟩ := List.mem_filterMap.1 he
  rw [← heq, fqid_of_managersEvent? hd]
  rfl

/-- A committee takes the events of a position and the changes to its managers after them, unless it
is told about a user and deleted at the end. -/
theorem Parallel.exists_modelAfter?_committee (hpar : Parallel h l)
    (hreadable : ∀ e ∈ p.events, IsReadable e)
    (hfront : step.migrateEvents h p.events .initial = .done front s)
    (hl : l.applyAll p.events = ⟨l₁, none⟩) (committee : UInt64) :
    ((∃ m, History.modelAfter? (committeeFqid committee) (front ++ managersEvents h s)
        (h.models.get? (committeeFqid committee)) = some m) ↔
      ∀ user, (trackingIn l user committee
          (listsCommittee (h.models.get? (userId user)) committee) p).flag.isSome = true →
        isPresent l committee p = true → l₁.hasLive (committeeFqid committee) = true) ∧
      ∀ m, History.modelAfter? (committeeFqid committee) (front ++ managersEvents h s)
          (h.models.get? (committeeFqid committee)) = some m →
        Listed m ∧
          Model.AgreeOff (rewritten "committee") m (l₁.models.get? (committeeFqid committee)) := by
  obtain ⟨m₀, hm₀, hagree⟩ :=
    hpar.exists_modelAfter? hreadable hfront hl (committeeFqid committee)
  have hlisted : Listed m₀ := by
    rw [modelAfter?_migrateEvents (by simp [committeeFqid]) hfront] at hm₀
    exact (hpar.listed committee).modelAfter? hreadable hm₀
  have hlive : m₀.any (!·.deleted) = l₁.hasLive (committeeFqid committee) := by
    rw [hasLive_eq, (alike_of_agreeOff hagree).any_live]
  obtain ⟨hiff, hleft⟩ := @modelAfter?_managersEvents_iff h s committee m₀ hlisted
  rw [History.modelAfter?_append, hm₀, Option.bind_some]
  rw [hpar.isSome_managers_iff hreadable hfront hl, hpar.isPresent_eq hfront, hlive] at hiff
  refine ⟨hiff.trans forall_exists_index, fun m hm => ?_⟩
  obtain ⟨hlisted', hagree'⟩ := hleft m hm
  exact ⟨hlisted', hagree'.trans hagree⟩

theorem eq_committeeFqid {f : Fqid} (hf : f.collection = "committee") : f = committeeFqid f.id := by
  cases f
  cases hf
  rfl

theorem Parallel.exists_applyAll_iff (hpar : Parallel h l)
    (hreadable : ∀ e ∈ p.events, IsReadable e)
    (hfront : step.migrateEvents h p.events .initial = .done front s)
    (hl : l.applyAll p.events = ⟨l₁, none⟩) :
    (∃ h₁, h.applyAll (front ++ managersEvents h s) = ⟨h₁, none⟩) ↔
      ∀ user committee, (trackingIn l user committee
          (listsCommittee (h.models.get? (userId user)) committee) p).flag.isSome = true →
        isPresent l committee p = true → l₁.hasLive (committeeFqid committee) = true := by
  have hcommittee := fun committee =>
    (hpar.exists_modelAfter?_committee hreadable hfront hl committee).1
  constructor
  · rintro ⟨h₁, happly⟩ user committee
    exact (hcommittee committee).1 ⟨_, History.modelAfter?_of_applyAll happly _⟩ user
  · intro hlive
    apply History.applyAll_of_modelAfter?
    intro f
    by_cases hf : f.collection = "committee"
    · rw [eq_committeeFqid hf, Option.isSome_iff_exists]
      exact (hcommittee f.id).2 fun user => hlive user f.id
    · obtain ⟨m, hm, -⟩ := hpar.exists_modelAfter? hreadable hfront hl f
      rw [History.modelAfter?_append, hm, Option.bind_some, modelAfter?_managersEvents_of_ne hf]
      rfl

/-- A migrated position that applies leads to parallel histories again, and to the lists of users
that the step keeps track of. -/
theorem Parallel.applyAll (hpar : Parallel h l) (hreadable : ∀ e ∈ p.events, IsReadable e)
    (hfront : step.migrateEvents h p.events .initial = .done front s)
    (hl : l.applyAll p.events = ⟨l₁, none⟩)
    (happly : h.applyAll (front ++ managersEvents h s) = ⟨h₁, none⟩) :
    Parallel h₁ l₁ ∧ ∀ user committee,
      listsCommittee (h₁.models.get? (userId user)) committee = (trackingIn l user committee
        (listsCommittee (h.models.get? (userId user)) committee) p).lists := by
  have hafter := History.modelAfter?_of_applyAll happly
  have hcommittee := fun committee =>
    (hpar.exists_modelAfter?_committee hreadable hfront hl committee).2 _ (hafter _)
  -- the changes to the managers leave the other models as the events of the position left them
  have hother : ∀ f, f.collection ≠ "committee" →
      History.modelAfter? f front (h.models.get? f) = some (h₁.models.get? f) ∧
        Model.AgreeOff (rewritten f.collection) (h₁.models.get? f) (l₁.models.get? f) := by
    intro f hf
    obtain ⟨m, hm, hagree⟩ := hpar.exists_modelAfter? hreadable hfront hl f
    have hsame := hafter f
    rw [History.modelAfter?_append, hm, Option.bind_some, modelAfter?_managersEvents_of_ne hf,
      Option.some.injEq] at hsame
    rw [← hsame]
    exact ⟨hm, hagree⟩
  refine ⟨⟨fun f => ?_, fun committee => (hcommittee committee).1⟩, fun user committee => ?_⟩
  · by_cases hf : f.collection = "committee"
    · rw [eq_committeeFqid hf]
      exact (hcommittee f.id).2
    · exact (hother f hf).2
  · have huser := (hother (userId user) (by simp [userId])).1
    exact congrArg Tracking.lists (hpar.tracking_eq hreadable hfront hl huser committee)

end Position

section Run

variable {h l l₁ : History}

theorem exists_migratePositions_iff {ps : List Position} (hpar : Parallel h l)
    (hreadable : ∀ p ∈ ps, ∀ e ∈ p.events, IsReadable e)
    (hl : l.applyAll (ps.flatMap (·.events)) = ⟨l₁, none⟩) (s : State) :
    (∃ out t, step.migratePositions h ps s = .done out t) ↔
      ∀ user committee, tellsDeleted user committee l
        (listsCommittee (h.models.get? (userId user)) committee) ps = false := by
  induction ps generalizing h l s with
  | nil => exact ⟨fun _ _ _ => rfl, fun _ => ⟨[], s, rfl⟩⟩
  | cons p ps ih =>
    obtain ⟨l₂, hl₂, hlRest⟩ := History.applyAll_append_eq_iff.1 hl
    have hreadableHere := hreadable p List.mem_cons_self
    have hreadableRest := fun q hq => hreadable q (List.mem_cons_of_mem _ hq)
    obtain ⟨front, s₁, hfront⟩ := exists_migrateEvents hreadableHere h .initial
    have hposition : step.migratePosition h p s =
        .done (front ++ managersEvents h s₁) { s₁ with managers := ∅ } :=
      EventStep.migratePosition_eq_done_iff.2 ⟨front, s₁, _, hfront, rfl, rfl⟩
    have happlies := hpar.exists_applyAll_iff hreadableHere hfront hl₂
    simp only [tellsDeleted, hl₂, Bool.or_eq_false_iff]
    constructor
    · rintro ⟨out, t, hrun⟩ user committee
      obtain ⟨events, s₂, h₁, rest, hevents, happly, hrest, -⟩ :=
        EventStep.migratePositions_cons_eq_done_iff.1 hrun
      obtain ⟨rfl, rfl⟩ := Outcome.done_eq_done_iff.1 (hposition.symm.trans hevents)
      obtain ⟨hpar₁, hlists⟩ := hpar.applyAll hreadableHere hfront hl₂ happly
      have hlive := happlies.1 ⟨h₁, happly⟩ user committee
      rw [← hlists]
      refine ⟨?_, (ih hpar₁ hreadableRest hlRest _).1 ⟨rest, t, hrest⟩ user committee⟩
      rw [Bool.and_eq_false_imp, Bool.and_eq_true]
      rintro ⟨hnoted, hpresent⟩
      rw [hlive hnoted hpresent]
      rfl
    · intro hnone
      obtain ⟨h₁, happly⟩ := happlies.2 fun user committee hnoted hpresent => by
        simpa [hnoted, hpresent] using (hnone user committee).1
      obtain ⟨hpar₁, hlists⟩ := hpar.applyAll hreadableHere hfront hl₂ happly
      obtain ⟨rest, t, hrest⟩ := (ih hpar₁ hreadableRest hlRest _).2 fun user committee => by
        rw [hlists]
        exact (hnone user committee).2
      exact ⟨_, t, EventStep.migratePositions_cons_eq_done_iff.2
        ⟨_, _, h₁, rest, hposition, happly, hrest, rfl⟩⟩

theorem any_live_of_modelAfter? {f : Fqid} {es : List Event} {m m' : Option Model}
    (hm : History.modelAfter? f es m = some m')
    (hkept : ∀ e ∈ es, e.fqid = f → e.isDeletion = false)
    (hthere : m.any (!·.deleted) = true ∨ ∃ e ∈ es, e.fqid = f) :
    m'.any (!·.deleted) = true := by
  induction es generalizing m with
  | nil =>
    cases hm
    exact hthere.resolve_right (by simp)
  | cons e es ih =>
    have hkeptRest := fun d hd => hkept d (List.mem_cons_of_mem _ hd)
    rw [History.modelAfter?] at hm
    by_cases heq : e.fqid = f
    · rw [if_pos heq] at hm
      obtain ⟨n, hn, hrest⟩ := Option.bind_eq_some_iff.1 hm
      refine ih hrest hkeptRest (.inl ?_)
      simp [Event.deleted_of_next? hn, hkept e List.mem_cons_self heq]
    · rw [if_neg heq] at hm
      refine ih hm hkeptRest (hthere.imp_right ?_)
      rintro ⟨d, hd, hdf⟩
      rcases List.mem_cons.1 hd with rfl | hd
      · exact absurd hdf heq
      · exact ⟨d, hd, hdf⟩

theorem tellsDeleted_of_no_committee_deleted (user committee : UInt64) {ps : List Position}
    (hkept : ∀ p ∈ ps, ∀ e ∈ p.events, e.fqid.collection = "committee" → e.isDeletion = false)
    (hl : l.applyAll (ps.flatMap (·.events)) = ⟨l₁, none⟩) (lists : Bool) :
    tellsDeleted user committee l lists ps = false := by
  induction ps generalizing l lists with
  | nil => rfl
  | cons p ps ih =>
    obtain ⟨l₂, hl₂, hlRest⟩ := History.applyAll_append_eq_iff.1 hl
    rw [tellsDeleted, hl₂, ih (fun q hq => hkept q (List.mem_cons_of_mem _ hq)) hlRest,
      Bool.or_false, Bool.and_eq_false_imp, Bool.and_eq_true]
    rintro ⟨-, hpresent⟩
    rw [isPresent, hasLive_eq, Bool.or_eq_true] at hpresent
    rw [hasLive_eq, any_live_of_modelAfter? (History.modelAfter?_of_applyAll hl₂ _)
      (fun e he heq => hkept p List.mem_cons_self e he (by rw [heq]; rfl))
      (hpresent.imp_right fun hcreated => ?_)]
    · rfl
    · obtain ⟨e, he, hcreates⟩ := List.any_eq_true.1 hcreated
      refine ⟨e, he, ?_⟩
      cases e <;> simp_all [createsCommittee, Event.fqid]

/-- The step migrates every log that it can read, that replays and in which no committee is
deleted. -/
theorem run_succeeds_of_no_committee_deleted {r : Schema.Registry} {ps : List Position}
    (hreadable : ∀ p ∈ ps, ∀ e ∈ p.events, IsReadable e)
    (hkept : ∀ p ∈ ps, ∀ e ∈ p.events, e.fqid.collection = "committee" → e.isDeletion = false)
    (hreplay : History.replay ps = .ok l) : ∃ out, (step.run r ps).1 = .ok out := by
  have hl := replay_eq_ok_iff.1 hreplay
  simp only [EventStep.run_eq_ok_iff]
  exact (exists_migratePositions_iff .empty hreadable hl _).2 fun user committee =>
    tellsDeleted_of_no_committee_deleted user committee hkept hl _

/-- The step migrates a log that it can read and that replays, unless a position tells a committee
about a user and leaves the committee deleted. -/
theorem run_succeeds_iff_tells_no_deleted {r : Schema.Registry} {ps : List Position} {l : History}
    (hreadable : ∀ p ∈ ps, ∀ e ∈ p.events, IsReadable e) (hreplay : History.replay ps = .ok l) :
    (∃ out, (step.run r ps).1 = .ok out) ↔
      ∀ user committee, tellsDeleted user committee .empty false ps = false := by
  simp only [EventStep.run_eq_ok_iff]
  exact exists_migratePositions_iff .empty hreadable (replay_eq_ok_iff.1 hreplay) _

theorem run_succeeds_of_promotedTwice :
    (∃ l, History.replay promotedTwice = .ok l) ∧
      (∃ out, (step.run ⟨∅⟩ promotedTwice).1 = .ok out) ∧
      ∀ user committee, tellsDeleted user committee .empty false promotedTwice = false := by
  have hreadable : ∀ p ∈ promotedTwice, ∀ e ∈ p.events, IsReadable e := fun p hp e he =>
    (isLegacy_promotedTwice p hp e he).isReadable
  obtain ⟨l, hl⟩ := exists_eq_ok (x := History.replay promotedTwice) (by decide +kernel)
  have hout := exists_eq_ok (x := (step.run ⟨∅⟩ promotedTwice).1) (by decide +kernel)
  exact ⟨⟨l, hl⟩, hout, (run_succeeds_iff_tells_no_deleted hreadable hl).1 hout⟩

/-- A manager of a committee who is demoted in the position that deletes the committee. -/
def demotedAtDeletion : List Position :=
  [⟨1, 0, none, [.create (committeeFqid 1) ∅, .create (userId 1) (promotion 1)]⟩,
   ⟨2, 0, none, [.update (userId 1) (demotion 1), .delete (committeeFqid 1)]⟩]

theorem demotedAtDeletion_is_refused :
    (∀ p ∈ demotedAtDeletion, ∀ e ∈ p.events, IsReadable e) ∧
      (∃ l, History.replay demotedAtDeletion = .ok l) ∧
      (step.run ⟨∅⟩ demotedAtDeletion).1 =
        .error (.history (.notFound .update (committeeFqid 1))) := by
  refine ⟨fun p hp e he => IsLegacy.isReadable ?_, exists_eq_ok (by decide +kernel), ?_⟩
  · simp only [demotedAtDeletion, List.mem_cons, List.not_mem_nil, or_false] at hp
    rcases hp with rfl | rfl <;> simp only [List.mem_cons, List.not_mem_nil, or_false] at he <;>
      rcases he with rfl | rfl
    · exact isLegacy_of_promotion (by simp [Event.fields?]) (by simp)
    · exact isLegacy_of_promotion (by simp [Event.fields?]) (by simp)
    · refine isLegacy_of_level (fun fields hsome => .inr ⟨1, .null, .inl rfl, ?_⟩) (by simp)
      exact Option.some.inj hsome
    · exact isLegacy_of_promotion (by simp [Event.fields?]) (by simp)
  · rfl

end Run

end MeetingLedger.Migration.CommitteeManagement
