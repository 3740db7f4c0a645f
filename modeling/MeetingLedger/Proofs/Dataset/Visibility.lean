import MeetingLedger.Dataset.Visibility
import MeetingLedger.Proofs.Container.Lookup

/-!
# Visibilities up to the order of groups

What a file inherits depends on the groups of its directory only as a set, and a file that records
its visibility is without problems exactly if the record and what follows from the directory are the
same up to that order.
-/

namespace MeetingLedger

namespace IdSet

theorem contains_ofIds (ns : List UInt64) (n : UInt64) :
    (ofIds ns).contains n = ns.contains n := by
  rw [ofIds, SortedMap.contains_ofList, List.any_map]
  induction ns with
  | nil => rfl
  | cons m ns ih => simp [ih]

theorem contains_keys (ids : IdSet) (n : UInt64) : ids.keys.contains n = ids.contains n := by
  rw [Bool.eq_iff_iff, List.contains_iff_mem]
  exact SortedMap.mem_keys_iff

theorem ofIds_eq_ofIds_iff {ns ms : List UInt64} :
    ofIds ns = ofIds ms ↔ ∀ n, n ∈ ns ↔ n ∈ ms := by
  constructor
  · intro h n
    rw [← List.contains_iff_mem, ← List.contains_iff_mem, ← contains_ofIds, h, contains_ofIds]
  · intro h
    refine SortedMap.ext_get? fun n => ?_
    have hcontains : (ofIds ns).contains n = (ofIds ms).contains n := by
      rw [contains_ofIds, contains_ofIds, Bool.eq_iff_iff, List.contains_iff_mem,
        List.contains_iff_mem, h]
    rw [SortedMap.contains, SortedMap.contains] at hcontains
    cases hns : (ofIds ns).get? n <;> cases hms : (ofIds ms).get? n <;> simp_all

end IdSet

namespace Visibility

/-- Two visibilities admit the same groups, or both everyone. -/
def Same (v w : Visibility) : Prop :=
  v.isPublic = w.isPublic ∧ IdSet.ofIds v.groups = IdSet.ofIds w.groups

instance (v w : Visibility) : Decidable (Same v w) := inferInstanceAs (Decidable (_ ∧ _))

namespace Same

variable {u v w : Visibility}

theorem refl (v : Visibility) : Same v v := ⟨rfl, rfl⟩

theorem symm (h : Same v w) : Same w v := ⟨h.1.symm, h.2.symm⟩

theorem trans (huv : Same u v) (hvw : Same v w) : Same u w :=
  ⟨huv.1.trans hvw.1, huv.2.trans hvw.2⟩

theorem mem_groups_iff (h : Same v w) (n : UInt64) : n ∈ v.groups ↔ n ∈ w.groups :=
  IdSet.ofIds_eq_ofIds_iff.1 h.2 n

theorem groups_eq_nil_iff (h : Same v w) : v.groups = [] ↔ w.groups = [] := by
  simp only [List.eq_nil_iff_forall_not_mem, h.mem_groups_iff]

/-- What a file inherits does not depend on the order of the groups of its directory. -/
theorem compute (access : List UInt64) (h : Same v w) :
    Same (compute access v) (compute access w) := by
  obtain ⟨isPublic, groups⟩ := v
  obtain ⟨isPublic', groups'⟩ := w
  have hnil := h.groups_eq_nil_iff
  have hmem := h.mem_groups_iff
  cases access with
  | nil =>
    cases groups with
    | nil =>
      obtain rfl : groups' = [] := hnil.1 rfl
      exact ⟨h.1, rfl⟩
    | cons g groups =>
      cases groups' with
      | nil => cases hnil.2 rfl
      | cons g' groups' => exact ⟨rfl, h.2⟩
  | cons a access =>
    cases groups with
    | nil =>
      obtain rfl : groups' = [] := hnil.1 rfl
      exact ⟨rfl, rfl⟩
    | cons g groups =>
      cases groups' with
      | nil => cases hnil.2 rfl
      | cons g' groups' =>
        refine ⟨rfl, IdSet.ofIds_eq_ofIds_iff.2 fun n => ?_⟩
        change n ∈ (a :: access).filter _ ↔ n ∈ (a :: access).filter _
        rw [List.mem_filter, List.mem_filter, List.contains_iff_mem, List.contains_iff_mem, hmem]

end Same

/-- A file that says whether it is public has no problem exactly if its record is the visibility
that follows from its directory. -/
theorem problems_eq_nil_iff {s : Snapshot} {file : Instance}
    (hpublic : (file.boolAt? "is_public").isSome) :
    problems s file = [] ↔ Same (stored file) (expected s file) := by
  obtain ⟨found, hfound⟩ := Option.isSome_iff_exists.1 hpublic
  simp only [problems, stored, Same, hfound, Option.getD_some, List.append_eq_nil_iff]
  by_cases hp : found = (expected s file).isPublic <;>
    by_cases hg : IdSet.ofIds (file.idsAt "inherited_access_group_ids") =
      IdSet.ofIds (expected s file).groups <;> simp [hp, hg]

end Visibility

end MeetingLedger
