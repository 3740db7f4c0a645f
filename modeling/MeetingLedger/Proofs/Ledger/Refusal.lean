import MeetingLedger.Proofs.Ledger.Collection
import MeetingLedger.Proofs.Ledger.ListChanges

/-!
# What a refused event leaves

Creations, updates, deletions and restorations look at their model before they write. A change of lists
looks at each field only when its turn comes, so that it may be refused with some lists changed. Then
too no other model is touched, and the history is as it was just if the lists held already what was
written to them.
-/

namespace MeetingLedger

namespace History

variable {h : History} {f : Fqid} {i : Instance}

theorem put_eq_self_iff (hf : h.get? f = some i) {j : Instance} : h.put f j false = h ↔ j = i := by
  have hmodel := get?_eq_some_iff.1 hf
  constructor
  · intro heq
    have hput : (h.put f j false).models.get? f = some ⟨j, false⟩ := SortedMap.get?_insert_self _ _ _
    rw [heq, hmodel] at hput
    cases hput
    rfl
  · rintro rfl
    refine congrArg mk (SortedMap.ext_get? fun g => ?_)
    rw [SortedMap.get?_insert]
    split
    · rename_i hg
      rw [hg, hmodel]
    · rfl

theorem history_of_refused {e : Event} (hkind : ∀ f add remove, e ≠ .listUpdate f add remove)
    {err : HistoryError} (hrefused : (h.apply e).refusal = some err) : (h.apply e).history = h := by
  cases e with
  | create f fields =>
    by_cases hf : h.models.contains f = true
    · rw [apply, if_pos hf]
    · rw [apply, if_neg hf] at hrefused
      cases hrefused
  | update f fields =>
    cases hf : h.get? f with
    | none => rw [apply, hf]
    | some i =>
      rw [apply, hf] at hrefused
      cases hrefused
  | listUpdate f add remove => exact absurd rfl (hkind f add remove)
  | delete f =>
    cases hf : h.get? f with
    | none => rw [apply, hf]
    | some i =>
      rw [apply, hf] at hrefused
      cases hrefused
  | restore f =>
    rcases hf : h.models.get? f with _ | ⟨i, _ | _⟩
    · rw [apply, hf]
    · simp [apply, hf]
    · rw [apply, hf] at hrefused
      cases hrefused

/-- A refused event leaves all models but its own alone, and it leaves the whole history as it was
unless it is a change of lists of a model that is there and changed some list before it came to the
field that holds none. -/
theorem refused_changes_nothing_iff {e : Event} {err : HistoryError}
    (hrefused : (h.apply e).refusal = some err) :
    (∀ g, g ≠ e.fqid → (h.apply e).history.models.get? g = h.models.get? g) ∧
      ((h.apply e).history = h ↔ ∀ f add remove i, e = .listUpdate f add remove →
        h.get? f = some i → i.HoldsChanges add remove) := by
  by_cases hkind : ∃ f add remove, e = .listUpdate f add remove
  · obtain ⟨f, add, remove, rfl⟩ := hkind
    cases hf : h.get? f with
    | none =>
      rw [apply, hf]
      refine ⟨fun _ _ => rfl, iff_of_true rfl ?_⟩
      rintro _ _ _ i ⟨⟩ hi
      rw [hf] at hi
      cases hi
    | some i =>
      rw [apply, hf]
      refine ⟨fun g hg => SortedMap.get?_insert_of_ne _ hg _,
        (put_eq_self_iff hf).trans (Instance.changeLists_eq_self_iff.trans ?_)⟩
      constructor
      · rintro hholds _ _ _ j ⟨⟩ hj
        rw [hf] at hj
        cases hj
        exact hholds
      · exact fun hholds => hholds f add remove i rfl hf
  · have hsame := history_of_refused (fun f add remove he => hkind ⟨f, add, remove, he⟩) hrefused
    refine ⟨fun g _ => by rw [hsame], iff_of_true hsame fun f add remove _ he => ?_⟩
    exact absurd ⟨f, add, remove, he⟩ hkind

def delegates : History :=
  (empty.apply (.create ⟨"group", 1⟩
    (.ofList [("member_ids", .ofIds [4]), ("name", .string "Delegates")]))).history

/-- The change of lists that puts members into the group, and then one in place of its name. -/
def misplacedMember (members : List UInt64) : Event :=
  .listUpdate ⟨"group", 1⟩
    (.ofList [("member_ids", members.map Json.ofUInt64), ("name", [.ofNat 5])]) ∅

theorem refused_changes_nothing_of_knownMember :
    (delegates.apply (misplacedMember [4])).refusal = some (.notAList ⟨"group", 1⟩ "name") ∧
      (delegates.apply (misplacedMember [4])).history = delegates := by
  have hrefused : (delegates.apply (misplacedMember [4])).refusal =
      some (.notAList ⟨"group", 1⟩ "name") := by decide +kernel
  refine ⟨hrefused, (refused_changes_nothing_iff hrefused).2.2 ?_⟩
  rintro f add remove i ⟨⟩ hi
  have hfields : delegates.get? ⟨"group", 1⟩ = some (created ⟨"group", 1⟩
      (.ofList [("member_ids", .ofIds [4]), ("name", .string "Delegates")])) := by rfl
  rw [hfields] at hi
  cases hi
  exact ⟨by decide +kernel, by decide +kernel⟩

/-- A new member stays in the group when the change is refused. -/
theorem refused_event_adds_member :
    (delegates.apply (misplacedMember [5])).refusal = some (.notAList ⟨"group", 1⟩ "name") ∧
      (delegates.get? ⟨"group", 1⟩).map (·.idsAt "member_ids") = some [4] ∧
      ((delegates.apply (misplacedMember [5])).history.get? ⟨"group", 1⟩).map
        (·.idsAt "member_ids") = some [4, 5] ∧
      (delegates.apply (misplacedMember [5])).history ≠ delegates := by
  have hbefore : (delegates.get? ⟨"group", 1⟩).map (·.idsAt "member_ids") = some [4] := by
    decide +kernel
  have hafter : ((delegates.apply (misplacedMember [5])).history.get? ⟨"group", 1⟩).map
      (·.idsAt "member_ids") = some [4, 5] := by decide +kernel
  refine ⟨by decide +kernel, hbefore, hafter, fun heq => ?_⟩
  rw [heq, hbefore] at hafter
  cases hafter

end History

end MeetingLedger
