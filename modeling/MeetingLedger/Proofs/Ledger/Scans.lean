import Mathlib.Order.Bounds.Basic
import MeetingLedger.Proofs.Ledger.Reachable

/-!
# Scans of a collection

The history lists a collection by a walk that starts at its smallest possible id and ends before the
first model of another collection. Main statement: after any attempts to apply events the walk meets
all models of the collection, whatever other names there are, so that no live model is missed and
the last id met is the highest one that was ever created.
-/

namespace MeetingLedger.History

/-- The ids that a collection ever used, those of deleted models included. -/
def usedIds (h : History) (name : String) : Set UInt64 :=
  {id | (h.getIncludingDeleted? ⟨name, id⟩).isSome = true}

section Highest

variable {h : History} {name : String}

theorem mem_usedIds_iff {id : UInt64} :
    id ∈ h.usedIds name ↔ h.models.contains ⟨name, id⟩ = true := by
  simp [usedIds, getIncludingDeleted?, SortedMap.contains]

theorem mem_usedIds_iff_block {id : UInt64} :
    id ∈ h.usedIds name ↔ ∃ e ∈ h.block name, e.1.id = id := by
  rw [mem_usedIds_iff, SortedMap.contains, Option.isSome_iff_exists, block_eq_filter]
  simp only [List.mem_filter, beq_iff_eq]
  constructor
  · rintro ⟨m, hm⟩
    exact ⟨(⟨name, id⟩, m), ⟨SortedMap.mem_entries_iff.2 hm, rfl⟩, rfl⟩
  · rintro ⟨⟨f, m⟩, ⟨hm, rfl⟩, rfl⟩
    exact ⟨m, SortedMap.mem_entries_iff.1 hm⟩

/-- The ids increase along the walk, so the last one met is the highest. -/
theorem isGreatest_maxId (hused : (h.usedIds name).Nonempty) :
    IsGreatest (h.usedIds name) (h.maxId name) := by
  obtain ⟨id, hid⟩ := hused
  obtain ⟨e, he, -⟩ := mem_usedIds_iff_block.1 hid
  obtain ⟨last, hlast⟩ : ∃ last, (h.block name).getLast? = some last :=
    ⟨_, List.getLast?_eq_some_getLast (List.ne_nil_of_mem he)⟩
  obtain ⟨front, hblock⟩ := List.getLast?_eq_some_iff.1 hlast
  have hmax : h.maxId name = last.1.id := by simp [maxId, hlast]
  rw [hmax]
  constructor
  · exact mem_usedIds_iff_block.2 ⟨last, by simp [hblock], rfl⟩
  · intro other hother
    obtain ⟨d, hd, rfl⟩ := mem_usedIds_iff_block.1 hother
    have hincreasing : (h.block name).Pairwise fun d e => d.1.id < e.1.id := pairwise_block
    rw [hblock, List.pairwise_append] at hincreasing
    rw [hblock, List.mem_append, List.mem_singleton] at hd
    rcases hd with hd | rfl
    · exact UInt64.le_of_lt (hincreasing.2.2 d hd last List.mem_cons_self)
    · exact UInt64.le_refl _

theorem maxId_eq_zero (hnone : h.usedIds name = ∅) : h.maxId name = 0 := by
  have hblock : h.block name = [] := by
    apply List.eq_nil_iff_forall_not_mem.2
    intro e he
    have hid : e.1.id ∈ h.usedIds name := mem_usedIds_iff_block.2 ⟨e, he, rfl⟩
    rw [hnone] at hid
    exact hid
  simp [maxId, hblock]

end Highest

section Created

variable {h : History} {f : Fqid}

theorem contains_put_of_contains {g : Fqid} (hg : h.models.contains g = true) (i : Instance)
    (deleted : Bool) : (h.put g i deleted).models.contains f = h.models.contains f := by
  rw [put, SortedMap.contains_insert]
  by_cases hf : f = g
  · simp [hf, hg]
  · simp [hf]

theorem contains_of_get? {g : Fqid} {i : Instance} (hi : h.get? g = some i) :
    h.models.contains g = true :=
  Option.isSome_of_eq_some (get?_eq_some_iff.1 hi)

/-- Models are added by their creations only, and no event removes one. -/
theorem contains_apply_iff {e : Event} :
    (h.apply e).history.models.contains f = true ↔
      h.models.contains f = true ∨ ∃ fields, e = .create f fields := by
  cases e with
  | create g fields =>
    have hcreated : (∃ fields', Event.create g fields = .create f fields') ↔ f = g := by
      simp [eq_comm]
    rw [hcreated, apply]
    split
    · rename_i hg
      constructor
      · exact .inl
      · rintro (hf | rfl)
        · exact hf
        · exact hg
    · simp [put, SortedMap.contains_insert, or_comm]
  | update g fields =>
    rw [apply]
    cases hi : h.get? g with
    | none => simp
    | some i => simp [contains_put_of_contains (contains_of_get? hi)]
  | listUpdate g add remove =>
    rw [apply]
    cases hi : h.get? g with
    | none => simp
    | some i => simp [contains_put_of_contains (contains_of_get? hi)]
  | delete g =>
    rw [apply]
    cases hi : h.get? g with
    | none => simp
    | some i => simp [contains_put_of_contains (contains_of_get? hi)]
  | restore g =>
    rw [apply]
    cases hm : h.models.get? g with
    | none => simp
    | some m =>
      have hg : h.models.contains g = true := Option.isSome_of_eq_some hm
      dsimp only
      split
      · simp [contains_put_of_contains hg]
      · simp

theorem contains_attemptAll_iff {es : List Event} :
    (h.attemptAll es).models.contains f = true ↔
      h.models.contains f = true ∨ ∃ fields, .create f fields ∈ es := by
  induction es generalizing h with
  | nil => simp [attemptAll]
  | cons e es ih =>
    have hcons : h.attemptAll (e :: es) = (h.apply e).history.attemptAll es := rfl
    rw [hcons, ih, contains_apply_iff, or_assoc]
    simp only [List.mem_cons, exists_or, eq_comm]

end Created

/-- After any attempts on the empty history, the listing of a collection holds just its live models,
each once and by increasing id. Its ids are those of the creations that were attempted, and the
highest of them is kept also if its model is deleted; it is zero if there is none. -/
theorem attempts_leave_collection (es : List Event) (name : String) :
    let h := History.empty.attemptAll es
    (∀ id i, (id, i) ∈ h.collection name ↔ h.get? ⟨name, id⟩ = some i) ∧
    ((h.collection name).map Prod.fst).Pairwise (· < ·) ∧
    h.usedIds name = {id | ∃ fields, .create ⟨name, id⟩ fields ∈ es} ∧
    ((h.usedIds name).Nonempty → IsGreatest (h.usedIds name) (h.maxId name)) ∧
    (h.usedIds name = ∅ → h.maxId name = 0) := by
  intro h
  refine ⟨fun _ _ => mem_collection_iff, ?_, ?_, isGreatest_maxId, maxId_eq_zero⟩
  · rw [List.pairwise_map]
    exact ascending_collection.imp Std.compare_eq_lt.1
  · ext id
    have hempty : empty.models.contains ⟨name, id⟩ = false := rfl
    rw [mem_usedIds_iff, contains_attemptAll_iff, hempty]
    simp

/-- Topics between collections whose names start alike. The last topic is deleted. -/
def crowdedNames : List Event :=
  [.create ⟨"topic", 2⟩ ∅, .create ⟨"topic", 10⟩ ∅, .create ⟨"topi", 11⟩ ∅, .create ⟨"topic_x", 1⟩ ∅,
    .create ⟨"topic", 9⟩ ∅, .create ⟨"topic", 2⟩ ∅, .delete ⟨"topic", 10⟩]

theorem attempts_leave_collection_of_crowdedNames :
    let h := History.empty.attemptAll crowdedNames
    (h.collection "topic").map Prod.fst = [2, 9] ∧
      ((h.usedIds "topic").Nonempty ∧ IsGreatest (h.usedIds "topic") (h.maxId "topic") ∧
        h.maxId "topic" = 10) ∧
      h.usedIds "motion" = ∅ ∧ h.maxId "motion" = 0 := by
  intro h
  have htopic := attempts_leave_collection crowdedNames "topic"
  have hmotion := attempts_leave_collection crowdedNames "motion"
  have hused : (h.usedIds "topic").Nonempty := ⟨2, mem_usedIds_iff.2 (by decide +kernel)⟩
  have hnone : h.usedIds "motion" = ∅ := by
    rw [hmotion.2.2.1]
    ext id
    simp [crowdedNames]
  exact ⟨by decide +kernel, ⟨hused, htopic.2.2.2.1 hused, by decide +kernel⟩, hnone,
    hmotion.2.2.2.2 hnone⟩

end MeetingLedger.History
