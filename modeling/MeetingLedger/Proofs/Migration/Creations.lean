import MeetingLedger.Proofs.Ledger.Reachable
import MeetingLedger.Proofs.Migration.Engine.Pending
import MeetingLedger.Proofs.Migration.Inheritance.Directories
import MeetingLedger.Proofs.Migration.Management.Position

/-!
# Creations

Every model of a history was created by an event, and the steps of the standard chain leave the
creations of a log as they are: none is added, dropped or given another name. If the names of all
models created in a log can be read, then so can those of all models in its snapshot, before and
after a migration.
-/

namespace MeetingLedger

def Event.creation? : Event → Option Fqid
  | .create f _ => some f
  | _ => none

def creations (es : List Event) : List Fqid := es.filterMap Event.creation?

theorem creations_append (es es' : List Event) :
    creations (es ++ es') = creations es ++ creations es' :=
  List.filterMap_append

namespace History

theorem contains_or_created {e : Event} {m : Option Model} {m' : Model} (h : e.next? m = some m') :
    m.isSome = true ∨ e.creation? = some e.fqid := by
  cases e <;> rcases m with _ | ⟨i, _ | _⟩ <;> simp [Event.next?] at h <;>
    simp [Event.creation?, Event.fqid]

theorem created_of_applyAll {h h' : History} {es : List Event} {f : Fqid}
    (hall : h.applyAll es = ⟨h', none⟩) (hf : h'.models.contains f = true) :
    h.models.contains f = true ∨ f ∈ creations es := by
  induction es generalizing h with
  | nil =>
    cases hall
    exact .inl hf
  | cons e es ih =>
    obtain ⟨m, hm, hrest⟩ := applyAll_cons_eq_iff.1 hall
    rcases ih hrest with hknown | hlater
    · rw [SortedMap.contains_insert, Bool.or_eq_true, decide_eq_true_eq] at hknown
      rcases hknown with rfl | hknown
      · rcases contains_or_created hm with hthere | hcreated
        · exact .inl hthere
        · exact .inr (List.mem_filterMap.2 ⟨e, List.mem_cons_self, hcreated⟩)
      · exact .inl hknown
    · obtain ⟨d, hd, hcreated⟩ := List.mem_filterMap.1 hlater
      exact .inr (List.mem_filterMap.2 ⟨d, List.mem_cons_of_mem e hd, hcreated⟩)

end History

namespace Migration

def creationsOf (ps : List Position) : List Fqid := creations (ps.flatMap (·.events))

theorem isRegular_of_replay {ps : List Position} {h : History} (hreplay : History.replay ps = .ok h)
    (hnames : ∀ f ∈ creationsOf ps, f.IsReadable) (index : UInt64) :
    (h.toSnapshot index).IsRegular := by
  refine History.isRegular_toSnapshot (fun f hf => ?_) index
  rcases History.created_of_applyAll (replay_eq_ok_iff.1 hreplay) hf with hnone | hcreated
  · cases hnone
  · exact hnames f hcreated

/-- A step that rewrites creations as creations of the same models and adds none. -/
structure EventStep.KeepsCreations (step : EventStep) : Prop where
  replaced : ∀ {e h s r t}, step.migrateEvent e h s = .done r t →
    creations (r.getD [e]) = creations [e]
  added : ∀ {h s more t}, step.additionalEvents h s = .done more t → creations more = []

namespace EventStep.KeepsCreations

variable {step : EventStep} (hkeeps : step.KeepsCreations) {h h' : History} {s t : step.State}
include hkeeps

theorem migrateEvents {es events : List Event}
    (hdone : step.migrateEvents h es s = .done events t) : creations events = creations es := by
  induction es generalizing s events with
  | nil =>
    obtain ⟨rfl, -⟩ := Outcome.done_eq_done_iff.1 hdone
    rfl
  | cons e es ih =>
    obtain ⟨r, s₁, rest, hfirst, hrest, rfl⟩ := migrateEvents_cons_eq_done_iff.1 hdone
    rw [creations_append, hkeeps.replaced hfirst, ih hrest, ← creations_append]
    rfl

theorem migratePosition {p : Position} {events : List Event}
    (hdone : step.migratePosition h p s = .done events t) :
    creations events = creations p.events := by
  obtain ⟨front, s₁, more, hfront, hmore, rfl⟩ := migratePosition_eq_done_iff.1 hdone
  rw [creations_append, hkeeps.migrateEvents hfront, hkeeps.added hmore, List.append_nil]

theorem migrates {ps out : List Position} (hrun : Migrates step h s ps h' t out) :
    creationsOf out = creationsOf ps := by
  induction hrun with
  | nil => rfl
  | @cons h h₁ h₂ s s₁ s₂ p ps out events position applied rest ih =>
    have hfirst := hkeeps.migratePosition position
    simp only [creationsOf, List.flatMap_cons, creations_append] at ih ⊢
    rw [← hfirst, ← ih]
    split
    · rename_i hempty
      rw [List.isEmpty_iff.1 hempty]
      rfl
    · rw [List.flatMap_cons, creations_append]

end EventStep.KeepsCreations

def Step.KeepsCreations (s : Step) : Prop :=
  ∀ {r now ps out}, (s.run r now ps).1 = .ok out → creationsOf out = creationsOf ps

theorem EventStep.KeepsCreations.step {s : EventStep} (hkeeps : s.KeepsCreations) :
    (Step.event s).KeepsCreations := by
  intro r now ps out hrun
  obtain ⟨h', t, hmigrates, -⟩ := migrates_of_run hrun
  exact hkeeps.migrates hmigrates

/-- A model step that asks for no creation leaves the creations as they are. -/
theorem ModelStep.keepsCreations {s : ModelStep}
    (hnone : ∀ {h requests t}, s.migrateModels h s.state = .done requests t →
      creations (requests.map ModelChange.toEvent) = []) : (Step.model s).KeepsCreations := by
  intro r now ps out hrun
  obtain ⟨h, requests, t, -, hmigrate, rfl | ⟨h', -, -, -, rfl⟩⟩ := cases_of_run hrun
  · rfl
  · have hadded := hnone hmigrate
    simp [creationsOf, appendPosition, creations_append, hadded]

section Standard

namespace CommitteeManagement

theorem creations_of_migrateEvent {e : Event} {h : History} {s s' : State} {r : Option (List Event)}
    (hdone : migrateEvent e h s = .done r s') : creations (r.getD [e]) = creations [e] := by
  by_cases huser : e.fqid.collection = "user"
  · rw [migrateEvent_of_user huser] at hdone
    cases e with
    | create f fields =>
      obtain ⟨r₀, s₀, -, hr⟩ := Outcome.andThen_eq_done_iff.1 hdone
      obtain ⟨rfl, -⟩ := Outcome.done_eq_done_iff.1 hr
      cases r₀ <;> rfl
    | update f fields =>
      obtain ⟨r₀, s₀, -, hr⟩ := Outcome.andThen_eq_done_iff.1 hdone
      obtain ⟨rfl, -⟩ := Outcome.done_eq_done_iff.1 hr
      rcases r₀ with _ | fields'
      · rfl
      · simp only [Option.map_some, Option.getD_some]
        split <;> rfl
    | listUpdate f add remove =>
      obtain ⟨rfl, -⟩ := Outcome.done_eq_done_iff.1 hdone
      rw [migrateLists]
      split
      · dsimp only
        split <;> rfl
      · rfl
    | delete f =>
      obtain ⟨rfl, -⟩ := Outcome.done_eq_done_iff.1 hdone
      rfl
    | restore f =>
      obtain ⟨rfl, -⟩ := Outcome.done_eq_done_iff.1 hdone
      rfl
  · rw [(replacement_of_ne_user huser hdone).1]
    rfl

/-- What follows the events of a position are changes of lists. -/
theorem creations_managersEvents (h : History) (s : State) :
    creations (managersEvents h s) = [] := by
  refine List.filterMap_eq_nil_iff.2 fun e he => ?_
  obtain ⟨entry, -, hevent⟩ := List.mem_filterMap.1 he
  rw [managersEvent?] at hevent
  dsimp only at hevent
  split at hevent
  · cases hevent
    rfl
  · cases hevent

theorem keepsCreations : step.KeepsCreations where
  replaced := creations_of_migrateEvent
  added {h s _ _} hdone := by
    obtain ⟨rfl, -⟩ := Outcome.done_eq_done_iff.1 hdone
    exact creations_managersEvents h s

end CommitteeManagement

namespace ColorNormalization

theorem creations_of_migrateEvent (h : History) {e : Event} {colors colors' : ColorFields}
    {r : Option (List Event)} (hdone : migrateEvent e h colors = .done r colors') :
    creations (r.getD [e]) = creations [e] := by
  cases e with
  | create f fields =>
    obtain ⟨rfl, -⟩ := Outcome.done_eq_done_iff.1 hdone
    split <;> rfl
  | update f fields =>
    obtain ⟨rfl, -⟩ := Outcome.done_eq_done_iff.1 hdone
    split <;> rfl
  | _ =>
    obtain ⟨rfl, -⟩ := Outcome.done_eq_done_iff.1 hdone
    rfl

theorem keepsCreations : step.KeepsCreations where
  replaced {_ h _ _ _} := creations_of_migrateEvent h
  added hdone := by
    obtain ⟨rfl, -⟩ := Outcome.done_eq_done_iff.1 hdone
    rfl

end ColorNormalization

namespace FileInheritance

theorem update_of_mem_modelChanges {h : History} {t : Tree} {known : Tree.Known} {c : ModelChange}
    (hc : c ∈ modelChanges h t known) : ∃ f fields, c = .update f fields := by
  rcases List.mem_append.1 hc with hfile | hgroup
  · obtain ⟨⟨id, n⟩, -, hchange⟩ := List.mem_filterMap.1 hfile
    dsimp only at hchange
    split at hchange
    · cases hchange
    · exact ⟨_, _, (Option.some.inj hchange).symm⟩
  · obtain ⟨e, -, hchange⟩ := List.mem_filterMap.1 hgroup
    obtain ⟨i, -, rfl⟩ := Option.map_eq_some_iff.1 hchange
    exact ⟨_, _, rfl⟩

theorem creations_of_migrateModels {h : History} {requests : List ModelChange}
    (hmigrate : migrateModels h = .ok requests) :
    creations (requests.map ModelChange.toEvent) = [] := by
  obtain ⟨known, -, hevents⟩ := migrateModels_eq_ok hmigrate
  rw [hevents]
  refine List.filterMap_eq_nil_iff.2 fun e he => ?_
  obtain ⟨c, hc, rfl⟩ := List.mem_map.1 he
  obtain ⟨f, fields, rfl⟩ := update_of_mem_modelChanges hc
  rfl

theorem keepsCreations : (Step.model step).KeepsCreations :=
  ModelStep.keepsCreations fun hmigrate =>
    creations_of_migrateModels (congrArg Outcome.result hmigrate)

end FileInheritance

theorem keepsCreations_of_mem_standardSteps :
    ∀ s ∈ Chain.standardSteps, s.KeepsCreations := by
  intro s hs
  simp only [Chain.standardSteps, List.mem_cons, List.not_mem_nil, or_false] at hs
  rcases hs with rfl | rfl | rfl
  · exact CommitteeManagement.keepsCreations.step
  · exact ColorNormalization.keepsCreations.step
  · exact FileInheritance.keepsCreations

theorem creationsOf_runInOrder {steps : List Step} (hsteps : ∀ s ∈ steps, s.KeepsCreations)
    {r : Schema.Registry} {now : Int64} {ps out : List Position}
    (hrun : runInOrder r now steps ps = .ok out) : creationsOf out = creationsOf ps := by
  induction steps generalizing ps with
  | nil =>
    cases hrun
    rfl
  | cons s steps ih =>
    obtain ⟨next, hfirst, hrun⟩ := (runInOrder_cons_eq_ok_iff r now).1 hrun
    rw [ih (fun s hs => hsteps s (List.mem_cons_of_mem _ hs)) hrun,
      hsteps s List.mem_cons_self hfirst]

end Standard

end Migration

end MeetingLedger
