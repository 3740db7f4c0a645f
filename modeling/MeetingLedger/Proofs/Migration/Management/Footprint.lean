import MeetingLedger.Proofs.Migration.Management.Managers
import MeetingLedger.Proofs.Migration.Management.Rewritten

/-!
# What the step leaves alone

Of a log that replays, whatever is in it, a run of the step keeps every model and changes only the
fields that it rewrites. Users are left without any former field.
-/

namespace MeetingLedger.Migration.CommitteeManagement

section Fields

variable {f : Fqid} {fields : Instance} {isCreation : Bool} {h : History} {s s' : State}
  {r : Option Instance}

def LacksFormer {α : Type} (fields : SortedMap String α) : Prop :=
  ∀ name ∈ fields.keys, isFormer name = false

theorem lacksFormer_kept {α : Type} (fields : SortedMap String α) :
    LacksFormer (fields.filter fun name _ => !isFormer name) := by
  intro name hname
  rw [SortedMap.mem_keys_iff, SortedMap.contains, SortedMap.get?_filter] at hname
  cases hformer : isFormer name with
  | false => rfl
  | true => cases hget : fields.get? name <;> simp [hget, hformer] at hname

theorem LacksFormer.writeManaged {kept : Instance} (hkept : LacksFormer kept) (isCreation : Bool)
    (managed : IdSet) : LacksFormer (writeManaged isCreation managed kept) := by
  have hinsert (v : Json) : LacksFormer (kept.insert managedField v) := by
    intro name hname
    rw [SortedMap.mem_keys_iff, SortedMap.contains_insert, Bool.or_eq_true, decide_eq_true_eq] at hname
    rcases hname with rfl | hname
    · exact isFormer_managedField
    · exact hkept name (SortedMap.mem_keys_iff.2 hname)
  rw [CommitteeManagement.writeManaged]
  split
  · split
    · intro name hname
      rw [SortedMap.mem_keys_iff, SortedMap.contains_erase, Bool.and_eq_true] at hname
      exact hkept name (SortedMap.mem_keys_iff.2 hname.2)
    · exact hinsert _
  · exact hinsert _

/-- What the step writes instead of some fields has no former field and agrees with them off the
rewritten ones. -/
theorem footprint_of_migrateFields (hdone : migrateFields f fields isCreation h s = .done r s') :
    LacksFormer (r.getD fields) ∧ (r.getD fields).AgreeOff (rewritten "user") fields := by
  rw [migrateFields] at hdone
  split at hdone
  · cases hdone
  · simp only at hdone
    split at hdone
    · rename_i hnone
      obtain ⟨rfl, -⟩ := Outcome.done_eq_done_iff.1 hdone
      refine ⟨fun name hname => ?_, .refl fields⟩
      rw [Bool.not_eq_true', List.any_eq_false] at hnone
      simpa using hnone name hname
    · split at hdone
      · obtain ⟨rfl, -⟩ := Outcome.done_eq_done_iff.1 hdone
        exact ⟨lacksFormer_kept fields, agreeOff_kept fields⟩
      · obtain ⟨rfl, -⟩ := Outcome.done_eq_done_iff.1 hdone
        exact ⟨(lacksFormer_kept fields).writeManaged _ _,
          (agreeOff_writeManaged _ _ _).trans (agreeOff_kept fields)⟩

end Fields

section Events

variable {e : Event} {h : History} {s s' : State} {r : Option (List Event)}

/-- The events instead of an event of a user: one that comes to the same off the rewritten fields and
names no former field, or none if nothing is left to do. -/
inductive Replaces (e : Event) : List Event → Prop
  | one {d e' : Event} (before : e.Rewrites (rewritten "user") d)
      (after : e'.Rewrites (rewritten "user") d) (names : ∀ name ∈ fieldNames e', isFormer name = false) :
      Replaces e [e']
  | none {d : Event} (before : e.Rewrites (rewritten "user") d)
      (idle : ∀ m m', d.next? m = some m' → m = some m') : Replaces e []

theorem filter_kept (changes : ListChanges) :
    (changes.filter fun name _ => !isFormer name).filter (fun name _ => !rewritten "user" name) =
      changes.filter fun name _ => !rewritten "user" name := by
  apply SortedMap.ext_get?
  intro name
  rw [SortedMap.get?_filter, SortedMap.get?_filter, SortedMap.get?_filter]
  cases changes.get? name <;> cases hformer : isFormer name <;> simp [rewritten, hformer]

theorem filter_rewritten_of_isEmpty {changes : ListChanges}
    (hempty : (changes.filter fun name _ => !isFormer name).isEmpty = true) :
    (changes.filter fun name _ => !rewritten "user" name) = ∅ := by
  rw [← filter_kept]
  apply SortedMap.ext_get?
  intro name
  rw [SortedMap.get?_filter, SortedMap.isEmpty_iff.1 hempty name]
  rfl

theorem replaces_of_migrateLists {f : Fqid} {add remove : ListChanges} :
    Replaces (.listUpdate f add remove)
      ((migrateLists f add remove).getD [.listUpdate f add remove]) := by
  rw [migrateLists]
  split
  · simp only
    split
    · rename_i hempty
      obtain ⟨hadd, hremove⟩ := Bool.and_eq_true_iff.1 hempty
      refine .none (.listUpdate f add remove) ?_
      rw [filter_rewritten_of_isEmpty hadd, filter_rewritten_of_isEmpty hremove]
      exact fun m m' => Event.eq_of_next?_listUpdate_empty
    · refine .one (.listUpdate f add remove) ?_ ?_
      · rw [← filter_kept add, ← filter_kept remove]
        exact .listUpdate f _ _
      · intro name hname
        rcases List.mem_append.1 hname with hname | hname
        · exact lacksFormer_kept _ name hname
        · exact lacksFormer_kept _ name hname
  · rename_i hnone
    refine .one (.listUpdate f add remove) (.listUpdate f add remove) fun name hname => ?_
    rw [Bool.not_eq_true, List.any_eq_false] at hnone
    simpa using hnone name hname

theorem replaces_of_migrateEvent (huser : e.fqid.collection = "user")
    (hdone : migrateEvent e h s = .done r s') : Replaces e (r.getD [e]) := by
  rw [migrateEvent_of_user huser] at hdone
  cases e with
  | create f fields =>
    obtain ⟨r₀, s₀, hfields, hr⟩ := Outcome.andThen_eq_done_iff.1 hdone
    obtain ⟨rfl, -⟩ := Outcome.done_eq_done_iff.1 hr
    obtain ⟨hlacks, hagree⟩ := footprint_of_migrateFields hfields
    have hone : Replaces (.create f fields) [.create f (r₀.getD fields)] :=
      .one (.create f hagree) (.create f (.refl _)) hlacks
    cases r₀ with
    | none => exact hone
    | some fields' => exact hone
  | update f fields =>
    obtain ⟨r₀, s₀, hfields, hr⟩ := Outcome.andThen_eq_done_iff.1 hdone
    obtain ⟨rfl, -⟩ := Outcome.done_eq_done_iff.1 hr
    obtain ⟨hlacks, hagree⟩ := footprint_of_migrateFields hfields
    have hone : Replaces (.update f fields) [.update f (r₀.getD fields)] :=
      .one (.update f hagree) (.update f (.refl _)) hlacks
    cases r₀ with
    | none => exact hone
    | some fields' =>
      by_cases hempty : fields'.isEmpty = true
      · rw [Option.map_some, Option.getD_some, if_pos hempty]
        exact .none (.update f hagree) fun m m' => Event.eq_of_next?_update_of_isEmpty hempty
      · rw [Option.map_some, Option.getD_some, if_neg hempty]
        exact hone
  | listUpdate f add remove =>
    obtain ⟨rfl, -⟩ := Outcome.done_eq_done_iff.1 hdone
    exact replaces_of_migrateLists
  | delete f =>
    obtain ⟨rfl, -⟩ := Outcome.done_eq_done_iff.1 hdone
    exact .one (.delete f) (.delete f) nofun
  | restore f =>
    obtain ⟨rfl, -⟩ := Outcome.done_eq_done_iff.1 hdone
    exact .one (.restore f) (.restore f) nofun

/-- Where the event applies, what is put in its place leaves a model that agrees with what the event
leaves. -/
theorem Replaces.agreeOff {es : List Event} {m m' l : Option Model} {l' : Model} (h : Replaces e es)
    (hfqid : ∀ d ∈ es, d.fqid = e.fqid) (hagree : Model.AgreeOff (rewritten "user") m l)
    (hl : e.next? l = some l') (hm : History.modelAfter? e.fqid es m = some m') :
    Model.AgreeOff (rewritten "user") m' (some l') := by
  cases h with
  | @one d e' before after names =>
    rw [← hfqid e' List.mem_cons_self, History.modelAfter?_singleton] at hm
    obtain ⟨m₁, hm₁, rfl⟩ := Option.map_eq_some_iff.1 hm
    exact hagree.next?_of_rewrites after before hm₁ hl
  | none before idle =>
    cases hm
    obtain ⟨m₁, hm₁, hagree₁⟩ := hagree.next? before hl
    rwa [idle m m₁ hm₁]

theorem Replaces.names {es : List Event} (h : Replaces e es) :
    ∀ d ∈ es, ∀ name ∈ fieldNames d, isFormer name = false := by
  cases h with
  | one before after names => exact fun d hd => List.mem_singleton.1 hd ▸ names
  | none before idle => exact nofun

end Events

section Position

variable {h h₁ l l₁ : History} {p : Position} {es events : List Event} {s t : State} {f : Fqid}

theorem names_of_migrateEvents (hrun : step.migrateEvents h es s = .done events t) :
    ∀ e ∈ events, e.fqid.collection = "user" → ∀ name ∈ fieldNames e, isFormer name = false := by
  induction es generalizing s events with
  | nil =>
    obtain ⟨rfl, -⟩ := Outcome.done_eq_done_iff.1 hrun
    exact nofun
  | cons e es ih =>
    obtain ⟨r, s₁, rest, hfirst, hrest, rfl⟩ := EventStep.migrateEvents_cons_eq_done_iff.1 hrun
    intro d hd huser
    rcases List.mem_append.1 hd with hd | hd
    · rw [fqid_of_migrateEvent hfirst d hd] at huser
      exact (replaces_of_migrateEvent huser hfirst).names d hd
    · exact ih hrest d hd huser

theorem agreeOff_user_of_migrateEvents {m m' l l' : Option Model} (huser : f.collection = "user")
    (hrun : step.migrateEvents h es s = .done events t)
    (hagree : Model.AgreeOff (rewritten "user") m l)
    (hl : History.modelAfter? f es l = some l') (hm : History.modelAfter? f events m = some m') :
    Model.AgreeOff (rewritten "user") m' l' := by
  induction es generalizing s m l events with
  | nil =>
    obtain ⟨rfl, -⟩ := Outcome.done_eq_done_iff.1 hrun
    cases hl
    cases hm
    exact hagree
  | cons e es ih =>
    obtain ⟨r, s₁, rest, hfirst, hrest, rfl⟩ := EventStep.migrateEvents_cons_eq_done_iff.1 hrun
    have hfqid := fqid_of_migrateEvent hfirst
    rw [History.modelAfter?_append] at hm
    obtain ⟨m₁, hm₁, hm⟩ := Option.bind_eq_some_iff.1 hm
    rw [History.modelAfter?] at hl
    by_cases heq : e.fqid = f
    · subst heq
      rw [if_pos rfl] at hl
      obtain ⟨l₁, hl₁, hl⟩ := Option.bind_eq_some_iff.1 hl
      have hreplaces := replaces_of_migrateEvent huser hfirst
      exact ih hrest (hreplaces.agreeOff hfqid hagree hl₁ hm₁) hl hm
    · rw [if_neg heq] at hl
      rw [History.modelAfter?_of_forall_ne fun d hd => by rw [hfqid d hd]; exact heq] at hm₁
      cases hm₁
      exact ih hrest hagree hl hm

theorem rewrites_managersEvents {e : Event} (he : e ∈ managersEvents h s) :
    e.Rewrites (rewritten e.fqid.collection) (.listUpdate e.fqid ∅ ∅) := by
  have hside (ns : List UInt64) : (Instance.idChange managersField ns).filter
      (fun name _ => !rewritten "committee" name) = ∅ := by
    apply SortedMap.ext_get?
    intro name
    rw [SortedMap.get?_filter]
    by_cases hname : name = managersField
    · subst hname
      have hwritten : rewritten "committee" managersField = true := by decide +kernel
      cases (Instance.idChange managersField ns).get? managersField <;> simp [hwritten]
    · rw [Instance.get?_idChange_of_ne hname]
      rfl
  obtain ⟨⟨committee, users⟩, -, hevent⟩ := List.mem_filterMap.1 he
  rw [managersEvent?_eq] at hevent
  split at hevent
  · cases hevent
    have hrewrites (added removed : List UInt64) : (Event.listUpdate (committeeFqid committee)
        (Instance.idChange managersField added) (Instance.idChange managersField removed)).Rewrites
          (rewritten "committee") _ := .listUpdate _ _ _
    simp only [hside] at hrewrites
    exact hrewrites _ _
  · cases hevent

/-- A history of migrated events next to the one of the events as they were: the same models, which
agree off the rewritten fields, and no user with a former field. -/
structure Footprint (h l : History) : Prop where
  agree : ∀ f, Model.AgreeOff (rewritten f.collection) (h.models.get? f) (l.models.get? f)
  cleared : ∀ f, f.collection = "user" → ∀ name, isFormer name = true →
    (h.models.get? f).bind (·.fields.get? name) = none

theorem Footprint.empty : Footprint .empty .empty := ⟨fun _ => .absent, fun _ _ _ _ => rfl⟩

theorem Footprint.migratePosition (hfoot : Footprint h l)
    (hrun : step.migratePosition h p s = .done events t)
    (happly : h.applyAll events = ⟨h₁, none⟩) (hl : l.applyAll p.events = ⟨l₁, none⟩) :
    Footprint h₁ l₁ := by
  obtain ⟨front, s₁, more, hfront, hmore, rfl⟩ := EventStep.migratePosition_eq_done_iff.1 hrun
  obtain ⟨rfl, -⟩ := Outcome.done_eq_done_iff.1 hmore
  have hafter := History.modelAfter?_of_applyAll happly
  constructor
  · intro f
    have hl := History.modelAfter?_of_applyAll hl f
    have hm := hafter f
    rw [History.modelAfter?_append] at hm
    obtain ⟨m, hm, hmanagers⟩ := Option.bind_eq_some_iff.1 hm
    have hagree : Model.AgreeOff (rewritten f.collection) m (l₁.models.get? f) := by
      by_cases huser : f.collection = "user"
      · have hstart := hfoot.agree f
        rw [huser] at hstart ⊢
        exact agreeOff_user_of_migrateEvents huser hfront hstart hl hm
      · rw [modelAfter?_migrateEvents huser hfront] at hm
        exact (hfoot.agree f).modelAfter?_same hm hl
    have hsame : Model.AgreeOff (rewritten f.collection) m (h₁.models.get? f) :=
      Model.agreeOff_of_modelAfter? (fun e he heq => heq ▸ rewrites_managersEvents he) hmanagers
    exact hsame.symm.trans hagree
  · intro f huser name hformer
    have hid : name ≠ "id" := by
      rintro rfl
      exact absurd hformer (by decide +kernel)
    have hunnamed : ∀ e ∈ front ++ managersEvents h s₁, e.fqid = f → name ∉ fieldNames e := by
      intro e he heq hname
      rcases List.mem_append.1 he with he | he
      · rw [names_of_migrateEvents hfront e he (heq ▸ huser) name hname] at hformer
        cases hformer
      · obtain ⟨d, -, hd⟩ := List.mem_filterMap.1 he
        rw [← heq, fqid_of_managersEvent? hd] at huser
        simp [committeeFqid] at huser
    rw [get?_modelAfter? hunnamed hid (hafter f)]
    exact hfoot.cleared f huser name hformer

theorem Footprint.migrates {s t : step.State} {ps out : List Position} {h' l' : History}
    (hfoot : Footprint h l) (hrun : EventStep.Migrates step h s ps h' t out)
    (hl : l.applyAll (ps.flatMap (·.events)) = ⟨l', none⟩) : Footprint h' l' := by
  induction hrun generalizing l with
  | nil h s =>
    cases hl
    exact hfoot
  | cons position applied rest ih =>
    rw [List.flatMap_cons] at hl
    obtain ⟨l₁, hfirst, hrest⟩ := History.applyAll_append_eq_iff.1 hl
    exact ih (hfoot.migratePosition position applied hfirst) hrest

end Position

/-- The step touches only what it migrates. After a run over a log that replays, whatever is in it,
the same models are there and deleted or not as before; models that are neither users nor committees
are as they were; committees differ in nothing but `manager_ids`, and users in nothing but
`committee_management_ids` and the former fields, of which no user, deleted or not, has any. -/
theorem run_touches_only_rewritten {r : Schema.Registry} {ps out : List Position} {l : History}
    (hl : History.replay ps = .ok l) (hrun : (step.run r ps).1 = .ok out) :
    ∃ h, History.replay out = .ok h ∧
      (∀ f, Model.AgreeOff (rewritten f.collection) (h.models.get? f) (l.models.get? f)) ∧
      (∀ f, f.collection ≠ "user" → f.collection ≠ "committee" →
        h.models.get? f = l.models.get? f) ∧
      ∀ f m, f.collection = "user" → h.models.get? f = some m →
        ∀ name, isFormer name = true → m.fields.get? name = none := by
  obtain ⟨h, t, hmigrates, hh⟩ := EventStep.migrates_of_run hrun
  have hfoot := Footprint.empty.migrates hmigrates (replay_eq_ok_iff.1 hl)
  refine ⟨h, hh, hfoot.agree, fun f huser hcommittee => ?_, fun f m huser hm name hformer => ?_⟩
  · apply (hfoot.agree f).eq
    intro name
    simp [rewritten, huser, hcommittee]
  · have hcleared := hfoot.cleared f huser name hformer
    rwa [hm] at hcleared

theorem promotedTwice_touches_only_rewritten :
    ∃ l out h, History.replay promotedTwice = .ok l ∧ (step.run ⟨∅⟩ promotedTwice).1 = .ok out ∧
      History.replay out = .ok h ∧
      ∀ f, Model.AgreeOff (rewritten f.collection) (h.models.get? f) (l.models.get? f) := by
  obtain ⟨l, hl⟩ := exists_eq_ok (x := History.replay promotedTwice) (by decide +kernel)
  obtain ⟨out, hout⟩ := exists_eq_ok (x := (step.run ⟨∅⟩ promotedTwice).1) (by decide +kernel)
  obtain ⟨h, hh, hagree, -⟩ := run_touches_only_rewritten hl hout
  exact ⟨l, out, h, hl, hout, hh, hagree⟩

end MeetingLedger.Migration.CommitteeManagement
