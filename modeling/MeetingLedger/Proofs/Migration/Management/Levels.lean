import MeetingLedger.Proofs.Container.Except
import MeetingLedger.Proofs.Dataset.Visibility
import MeetingLedger.Proofs.Migration.Management.Legacy
import MeetingLedger.Proofs.Migration.Run

/-!
# Levels in one event

The levels that one event of a user writes, what the step makes of them, and what it takes down
about the managers of the committees.
-/

namespace MeetingLedger.Migration.CommitteeManagement

theorem contains_applyLevels (before : IdSet) (levels : List (UInt64 × Bool))
    (committee : UInt64) : (applyLevels before levels).contains committee =
      levels.foldl (fun b l => if l.1 = committee then l.2 else b)
        (before.contains committee) := by
  induction levels generalizing before with
  | nil => rfl
  | cons l levels ih =>
    rw [applyLevels, List.foldl_cons, List.foldl_cons]
    refine (ih _).trans (congrArg (fun b => levels.foldl _ b) ?_)
    obtain ⟨c, manages⟩ := l
    by_cases hc : committee = c
    · cases manages <;> simp [SortedMap.contains_insert, SortedMap.contains_erase, hc]
    · cases manages <;>
        simp [SortedMap.contains_insert, SortedMap.contains_erase, hc, Ne.symm hc]

namespace State

def flag (s : State) (user committee : UInt64) : Option Bool :=
  (s.managers.get? committee).bind (·.get? user)

theorem flag_setManager (s : State) (user user' committee committee' : UInt64) (manages : Bool) :
    (s.setManager user manages committee).flag user' committee' =
      if user' = user ∧ committee' = committee then some manages else s.flag user' committee' := by
  rw [flag, setManager, SortedMap.get?_update]
  by_cases hc : committee' = committee
  · subst hc
    by_cases hu : user' = user
    · simp [hu]
    · cases hget : s.managers.get? committee' <;>
        simp [flag, hu, hget, SortedMap.get?_insert]
  · simp [hc, flag]

variable (s : State) (user : UInt64) (manages : Bool) (committees : List UInt64)

theorem flag_setManagers (user' committee : UInt64) :
    (s.setManagers user manages committees).flag user' committee =
      if user' = user ∧ committee ∈ committees then some manages
      else s.flag user' committee := by
  induction committees generalizing s with
  | nil => simp [setManagers]
  | cons c committees ih =>
    rw [setManagers, List.foldl_cons]
    refine (ih _).trans ?_
    rw [flag_setManager]
    by_cases hu : user' = user <;> by_cases hc : committee = c <;>
      simp [hu, hc]

@[simp] theorem managed_setManagers : (s.setManagers user manages committees).managed = s.managed := by
  induction committees generalizing s with
  | nil => rfl
  | cons c committees ih => exact ih _

@[simp] theorem created_setManagers : (s.setManagers user manages committees).created = s.created := by
  induction committees generalizing s with
  | nil => rfl
  | cons c committees ih => exact ih _

def noteDifference (old new : IdSet) : State :=
  (s.setManagers user true (new.keys.filter (!old.contains ·))).setManagers user false
    (old.keys.filter (!new.contains ·))

theorem flag_noteDifference (old new : IdSet) (user' committee : UInt64) :
    (s.noteDifference user old new).flag user' committee =
      if user' = user ∧ old.contains committee ≠ new.contains committee then
        some (new.contains committee)
      else s.flag user' committee := by
  rw [noteDifference, flag_setManagers, flag_setManagers]
  simp only [List.mem_filter, SortedMap.mem_keys_iff]
  by_cases hu : user' = user
  · cases old.contains committee <;> cases new.contains committee <;> simp [hu]
  · simp [hu]

end State

theorem contains_idsAt_writeManaged {i kept : Instance} {isCreation : Bool} {managed : IdSet}
    (hnew : isCreation = true → i.get? managedField = none) (committee : UInt64) :
    ((i.merge (writeManaged isCreation managed kept)).idsAt managedField).contains committee =
      managed.contains committee := by
  have hid : managedField ≠ "id" := by decide +kernel
  rw [Instance.idsAt]
  by_cases hempty : managed.isEmpty = true
  · have hmanaged : managed.contains committee = false := by
      simp [SortedMap.contains, SortedMap.isEmpty_iff.1 hempty committee]
    cases isCreation with
    | true =>
      have hnone : (writeManaged true managed kept).get? managedField = none := by
        simp [writeManaged, hempty, SortedMap.get?_erase]
      simp [Instance.get?_merge_of_none hnone, hnew rfl, hmanaged, Json.ids]
    | false =>
      simp [Instance.get?_merge _ _ hid, writeManaged, hempty, hmanaged, Json.ids, Json.isNull]
  · have hget : (i.merge (writeManaged isCreation managed kept)).get? managedField =
        some (.ofIds managed.keys) := by
      simp [Instance.get?_merge _ _ hid, writeManaged, hempty, Json.ofIds, Json.isNull]
    rw [hget, Json.ids_ofIds, IdSet.contains_keys]

def before (user : Fqid) (fields : Instance) (isCreation : Bool) (h : History) (s : State) :
    IdSet :=
  if isCreation then IdSet.ofIds (fields.idsAt managedField)
  else s.managedBefore user.id (h.get? user)

end MeetingLedger.Migration.CommitteeManagement
