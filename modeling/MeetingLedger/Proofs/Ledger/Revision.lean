import MeetingLedger.Proofs.Ledger.Refusal

/-!
# Lists as sets

A change of lists treats each list as a set that keeps its order: what is added and not there yet goes
to the end, once, and what is removed goes, also if it was only just added. To make the same change again
changes nothing.
-/

namespace MeetingLedger

namespace Instance

/-- A list with the added values at its end that are new to it, each once, and without the removed
values. -/
def revised (items added removed : List Json) : List Json :=
  (items ++ (added.filter (!items.contains ·)).eraseDups).filter (!removed.contains ·)

section Revised

theorem appendNew_eq_eraseDups (items values : List Json) :
    appendNew items values = items ++ (values.filter (!items.contains ·)).eraseDups := by
  induction values generalizing items with
  | nil => simp
  | cons v values ih =>
    cases hv : items.contains v with
    | true =>
      rw [appendNew, List.foldl_cons, if_pos hv, List.filter_cons_of_neg (by simp [hv])]
      exact ih items
    | false =>
      -- what is new behind `v` is what is new to the list and not `v` again
      have hrest : values.filter (!(items ++ [v]).contains ·) =
          (values.filter (!items.contains ·)).filter (!· == v) := by
        rw [List.filter_filter]
        refine List.filter_congr fun w _ => ?_
        rw [List.contains_append, List.contains_cons, List.contains_nil, Bool.or_false, Bool.not_or,
          Bool.and_comm]
      have hstep : appendNew items (v :: values) = appendNew (items ++ [v]) values := by
        rw [appendNew, List.foldl_cons, if_neg (by simp [hv]), appendNew]
      rw [hstep, ih, hrest, List.append_assoc, List.singleton_append,
        List.filter_cons_of_pos (by simp [hv]), List.eraseDups_cons]

theorem revised_eq (items added removed : List Json) :
    revised items added removed = (appendNew items added).filter (!removed.contains ·) := by
  rw [revised, appendNew_eq_eraseDups]

/-- A list changed once holds what is added or has to do without it. -/
theorem revised_revised (items added removed : List Json) :
    revised (revised items added removed) added removed = revised items added removed := by
  obtain ⟨new, hnew, -, hall⟩ := appendNew_eq_append items added
  have hitems : revised items added removed = (items ++ new).filter (!removed.contains ·) := by
    rw [revised_eq, hnew]
  rw [revised_eq (revised items added removed), filter_appendNew_eq_self_iff, hitems]
  refine ⟨fun v hv => ?_, fun v hv => by simpa using (List.mem_filter.1 hv).2⟩
  obtain ⟨w, hw, heq⟩ := List.contains_iff_exists_mem_beq.1 (hall v hv)
  cases hgone : removed.contains v with
  | true => exact .inr rfl
  | false =>
    refine .inl (List.contains_iff_exists_mem_beq.2 ⟨w, List.mem_filter.2 ⟨hw, ?_⟩, heq⟩)
    rw [← List.contains_congr heq, hgone, Bool.not_false]

end Revised

section Slots

variable {slot : Option Json} {added removed : Option (List Json)}

/-- A field is left alone by a change that does not name it, and by a removal if it is absent. -/
theorem slotChanged_of_spared (hadded : added = none) (hremoved : removed = none ∨ slot = none) :
    slotChanged slot added removed = slot := by
  subst hadded
  rcases hremoved with rfl | rfl
  · rfl
  · cases removed <;> rfl

theorem slotChanged_of_revised (h : added.isSome = true ∨ removed.isSome = true ∧ slot.isSome = true) :
    slotChanged slot added removed =
      some (.array (revised (slotItems slot) (added.getD []) (removed.getD []))) := by
  rw [revised_eq]
  cases added <;> cases removed <;> cases slot <;>
    simp_all [slotChanged, slotWith, slotWithout, slotItems, Json.array?, List.filter_eq_self.2]

theorem slotChanged_slotChanged (slot : Option Json) (added removed : Option (List Json)) :
    slotChanged (slotChanged slot added removed) added removed =
      slotChanged slot added removed := by
  by_cases h : added.isSome = true ∨ removed.isSome = true ∧ slot.isSome = true
  · have hitems (items : List Json) : slotItems (some (.array items)) = items := rfl
    rw [slotChanged_of_revised h, slotChanged_of_revised (h.imp_right fun h => ⟨h.1, rfl⟩), hitems,
      revised_revised]
  · have hsame : slotChanged slot added removed = slot := by
      apply slotChanged_of_spared <;> cases added <;> cases removed <;> cases slot <;> simp_all
    rw [hsame, hsame]

end Slots

section Changes

variable {i : Instance} {add remove : ListChanges} {name : String}

theorem isSome_listAt?_of_done (h : (i.changeLists add remove).2 = none)
    (hname : (add.get? name).isSome = true ∨ (remove.get? name).isSome = true) :
    (i.listAt? name).isSome = true := by
  rw [changeLists_blocked, Option.or_eq_none_iff] at h
  by_contra hlist
  have hnone : i.listAt? name = none := by simpa using hlist
  rcases hname with hname | hname
  · rw [← reached_of_unblocked h.1, get?_reached_of_not_list hnone] at hname
    cases hname
  · rw [← reached_of_unblocked h.2, get?_reached_of_not_list hnone] at hname
    cases hname

theorem changeLists_changeLists (h : (i.changeLists add remove).2 = none) :
    (i.changeLists add remove).1.changeLists add remove = ((i.changeLists add remove).1, none) := by
  have hlists := isSome_listAt?_changeLists i add remove
  have hdone : ((i.changeLists add remove).1.changeLists add remove).2 = none := by
    rw [changeLists_blocked, (reached_congr hlists add).2, (reached_congr hlists remove).2,
      ← changeLists_blocked, h]
  refine Prod.ext (SortedMap.ext_get? fun name => ?_) hdone
  rw [get?_changeLists_of_done hdone, get?_changeLists_of_done h, slotChanged_slotChanged]

/-- The fields that a change of lists makes of fields `i`. -/
structure Revises (i : Instance) (add remove : ListChanges) (j : Instance) : Prop where
  /-- A field that is added to, or that is there and removed from, held a list or was absent, which
  counts as the empty list, and holds the list revised. -/
  named : ∀ name, (add.get? name).isSome = true ∨
      (remove.get? name).isSome = true ∧ (i.get? name).isSome = true →
    ∃ items, i.listAt? name = some items ∧ j.get? name =
      some (.array (revised items ((add.get? name).getD []) ((remove.get? name).getD [])))
  /-- A removal from an absent field leaves it absent. -/
  absent : ∀ name, add.get? name = none → i.get? name = none → j.get? name = none
  /-- A field without additions and removals holds what it held. -/
  others : ∀ name, add.get? name = none → remove.get? name = none → j.get? name = i.get? name

theorem revises_changeLists (h : (i.changeLists add remove).2 = none) :
    i.Revises add remove (i.changeLists add remove).1 where
  named name hname := by
    obtain ⟨items, hitems⟩ :=
      Option.isSome_iff_exists.1 (isSome_listAt?_of_done h (hname.imp_right And.left))
    refine ⟨items, hitems, ?_⟩
    rw [get?_changeLists_of_done h, slotChanged_of_revised hname, slotItems_of_listAt? hitems]
  absent name hadd habsent := by
    rw [get?_changeLists_of_done h, slotChanged_of_spared hadd (.inr habsent), habsent]
  others _ hadd hremove := get?_changeLists hadd hremove

end Changes

end Instance

namespace History

variable {h : History} {f : Fqid} {add remove : ListChanges}

/-- A change of lists that is not refused revises the lists of its model, touches no other model, and
changes nothing the second time. -/
theorem listUpdate_revises (hdone : (h.apply (.listUpdate f add remove)).refusal = none) :
    ∃ i j, h.get? f = some i ∧
      (h.apply (.listUpdate f add remove)).history.get? f = some j ∧ i.Revises add remove j ∧
      (∀ g, g ≠ f →
        (h.apply (.listUpdate f add remove)).history.models.get? g = h.models.get? g) ∧
      (h.apply (.listUpdate f add remove)).history.apply (.listUpdate f add remove) =
        ⟨(h.apply (.listUpdate f add remove)).history, none⟩ := by
  cases hf : h.get? f with
  | none =>
    rw [apply, hf] at hdone
    cases hdone
  | some i =>
    have happly : h.apply (.listUpdate f add remove) =
        ⟨h.put f (i.changeLists add remove).1 false,
          (i.changeLists add remove).2.map (.notAList f)⟩ := by
      rw [apply, hf]
    have hlists : (i.changeLists add remove).2 = none := by
      rw [happly] at hdone
      exact Option.map_eq_none_iff.1 hdone
    rw [happly]
    have hafter : (h.put f (i.changeLists add remove).1 false).get? f =
        some (i.changeLists add remove).1 := by
      rw [get?, put, SortedMap.get?_insert_self]
      rfl
    refine ⟨i, _, rfl, hafter, Instance.revises_changeLists hlists,
      fun g hg => SortedMap.get?_insert_of_ne _ hg _, ?_⟩
    rw [apply, hafter]
    dsimp only
    rw [Instance.changeLists_changeLists hlists, (put_eq_self_iff hafter).2 rfl]
    rfl

/-- The change of lists that adds members to the group, one of them twice, and removes two, one of them
only just added, together with an administrator that it does not have. -/
def substitutes : Event :=
  .listUpdate ⟨"group", 1⟩ (.ofList [("member_ids", [5, 4, 6, 5, 7].map Json.ofUInt64)])
    (.ofList [("admin_ids", [.ofUInt64 2]), ("member_ids", [6, 4].map Json.ofUInt64)])

theorem listUpdate_revises_of_substitutes :
    (delegates.apply substitutes).refusal = none ∧
      ∃ j, (delegates.apply substitutes).history.get? ⟨"group", 1⟩ = some j ∧
        j.get? "member_ids" = some (.ofIds [5, 7]) ∧ j.get? "admin_ids" = none ∧
        j.get? "name" = some (.string "Delegates") ∧
        (delegates.apply substitutes).history.apply substitutes =
          ⟨(delegates.apply substitutes).history, none⟩ := by
  have hdone : (delegates.apply substitutes).refusal = none := by decide +kernel
  refine ⟨hdone, ?_⟩
  obtain ⟨i, j, hi, hj, hrevises, -, hagain⟩ := listUpdate_revises hdone
  have hfields : delegates.get? ⟨"group", 1⟩ = some (created ⟨"group", 1⟩
      (.ofList [("member_ids", .ofIds [4]), ("name", .string "Delegates")])) := by rfl
  rw [hfields] at hi
  cases hi
  obtain ⟨items, hitems, hmembers⟩ := hrevises.named "member_ids" (.inl (by decide +kernel))
  cases hitems
  exact ⟨j, hj, hmembers, hrevises.absent _ (by rfl) (by rfl), hrevises.others _ (by rfl) (by rfl),
    hagain⟩

end History

end MeetingLedger
