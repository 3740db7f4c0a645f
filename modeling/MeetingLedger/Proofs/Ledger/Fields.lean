import MeetingLedger.Proofs.Ledger.ListChanges

/-!
# Fields after a write

What the fields of a model hold after a write, and which ids a list of ids holds after a change of
lists. A write leaves alone what it does not name.
-/

namespace MeetingLedger

namespace Json

theorem ids_ofIds (ns : List UInt64) : ids (some (ofIds ns)) = ns := by
  simp only [ids, ofIds, Option.bind_some, array?, Option.getD_some, List.filterMap_map]
  rw [show id? ∘ ofUInt64 = some from funext id?_ofUInt64, List.filterMap_some]

/-- The values that equal the JSON form of an id are those that are read as that id. -/
theorem beq_ofUInt64_iff {v : Json} {n : UInt64} : (v == ofUInt64 n) = true ↔ v.id? = some n := by
  change v.same (ofUInt64 n) = true ↔ _
  cases v with
  | number x =>
    cases x with
    | whole w =>
      have hw := w.bounded
      have hn := n.toNat_lt
      simp only [same, ofUInt64, Number.same, Whole.ofUInt64, beq_iff_eq, id?, Whole.toUInt64?]
      constructor
      · intro h
        simp [h]
      · intro h
        split at h
        · rw [← Option.some.inj h, UInt64.toNat_ofNat']
          omega
        · cases h
    | real _ => simp [same, ofUInt64, Number.same, id?]
  | _ => simp [same, ofUInt64, id?]

theorem beq_ofUInt64_comm (v : Json) (n : UInt64) : (ofUInt64 n == v) = (v == ofUInt64 n) := by
  change (ofUInt64 n).same v = v.same (ofUInt64 n)
  cases v with
  | number x => cases x <;> simp [same, ofUInt64, Number.same, Bool.beq_comm]
  | _ => simp [same, ofUInt64]

end Json

namespace Instance

private theorem get?_mergeFold (name : String) (es : List (String × Json)) (i : Instance) :
    (es.foldl (fun i e => if e.1 = "id" then i else if e.2.isNull then i.erase e.1
      else i.insert e.1 e.2) i).get? name =
      es.foldl (fun slot e => if e.1 = name then
        (if name = "id" then slot else if e.2.isNull then none else some e.2) else slot)
        (i.get? name) := by
  induction es generalizing i with
  | nil => rfl
  | cons e es ih =>
    rw [List.foldl_cons, List.foldl_cons, ih]
    congr 1
    by_cases hname : e.1 = name
    · subst hname
      by_cases hid : e.1 = "id"
      · simp [hid]
      · by_cases hnull : e.2.isNull = true
        · simp [hid, hnull, SortedMap.get?_erase]
        · simp [hid, hnull]
    · rw [if_neg hname]
      by_cases hid : e.1 = "id"
      · simp [hid]
      · by_cases hnull : e.2.isNull = true
        · simp [hid, hnull, SortedMap.get?_erase, Ne.symm hname]
        · simp [hid, hnull, SortedMap.get?_insert, Ne.symm hname]

/-- A written field holds what was written, `null` meaning nothing; the others are left alone. -/
theorem get?_merge (i fields : Instance) {name : String} (h : name ≠ "id") :
    (i.merge fields).get? name =
      (fields.get? name).elim (i.get? name) fun v => if v.isNull then none else some v := by
  rw [merge, get?_mergeFold]
  simp only [h, if_false]
  exact SortedMap.foldl_entries_at name (fun v _ => if v.isNull then none else some v) fields _

theorem get?_merge_id (i fields : Instance) : (i.merge fields).get? "id" = i.get? "id" := by
  rw [merge]
  generalize fields.entries = es
  induction es generalizing i with
  | nil => rfl
  | cons e es ih =>
    rw [List.foldl_cons, ih]
    by_cases hid : e.1 = "id"
    · rw [if_pos hid]
    · rw [if_neg hid]
      split
      · simp [SortedMap.get?_erase, Ne.symm hid]
      · exact SortedMap.get?_insert_of_ne _ (Ne.symm hid) _

theorem get?_merge_of_none {i fields : Instance} {name : String} (h : fields.get? name = none) :
    (i.merge fields).get? name = i.get? name := by
  by_cases hid : name = "id"
  · rw [hid, get?_merge_id]
  · simp [get?_merge i fields hid, h]

theorem merge_of_isEmpty {i fields : Instance} (h : fields.isEmpty = true) : i.merge fields = i := by
  rw [merge, List.isEmpty_iff.1 h]
  rfl

theorem mem_ids_appendNew {items : List Json} {ns : List UInt64} {n : UInt64} :
    n ∈ (appendNew items (ns.map Json.ofUInt64)).filterMap Json.id? ↔
      n ∈ items.filterMap Json.id? ∨ n ∈ ns := by
  induction ns generalizing items with
  | nil => simp [appendNew]
  | cons m ns ih =>
    simp only [appendNew, List.map_cons, List.foldl_cons] at ih ⊢
    rw [ih]
    split
    · rename_i hmem
      have hm : m ∈ items.filterMap Json.id? := by
        rw [List.contains_eq_any_beq] at hmem
        obtain ⟨v, hv, heq⟩ := List.any_eq_true.1 hmem
        rw [Json.beq_ofUInt64_comm] at heq
        exact List.mem_filterMap.2 ⟨v, hv, Json.beq_ofUInt64_iff.1 heq⟩
      constructor
      · rintro (h | h)
        · exact .inl h
        · exact .inr (List.mem_cons_of_mem _ h)
      · rintro (h | h)
        · exact .inl h
        · rcases List.mem_cons.1 h with rfl | h
          · exact .inl hm
          · exact .inr h
    · simp [or_assoc]

theorem mem_ids_filter_not_contains {items : List Json} {ns : List UInt64} {n : UInt64} :
    n ∈ (items.filter (!(ns.map Json.ofUInt64).contains ·)).filterMap Json.id? ↔
      n ∈ items.filterMap Json.id? ∧ n ∉ ns := by
  simp only [List.mem_filterMap, List.mem_filter]
  constructor
  · rintro ⟨v, ⟨hv, hkept⟩, hn⟩
    refine ⟨⟨v, hv, hn⟩, fun hmem => ?_⟩
    have hfound : (ns.map Json.ofUInt64).contains v = true := by
      rw [List.contains_eq_any_beq, List.any_map]
      exact List.any_eq_true.2 ⟨n, hmem, Json.beq_ofUInt64_iff.2 hn⟩
    simp [hfound] at hkept
  · rintro ⟨⟨v, hv, hn⟩, hnot⟩
    refine ⟨v, ⟨hv, ?_⟩, hn⟩
    rw [Bool.not_eq_true', List.contains_eq_any_beq, List.any_map, List.any_eq_false]
    intro m hm heq
    have hv' : v.id? = some m := Json.beq_ofUInt64_iff.1 heq
    rw [hn] at hv'
    exact hnot (Option.some.inj hv' ▸ hm)

/-- The change that names some ids for a field, nothing without ids. -/
def idChange (field : String) (ns : List UInt64) : ListChanges :=
  if ns.isEmpty then ∅ else (∅ : ListChanges).insert field (ns.map Json.ofUInt64)

theorem mem_ids_slotWith {slot : Option Json} {ns : List UInt64} {n : UInt64} :
    n ∈ Json.ids (slotWith slot (ns.map Json.ofUInt64)) ↔ n ∈ Json.ids slot ∨ n ∈ ns :=
  mem_ids_appendNew

theorem mem_ids_slotWithout {slot : Option Json} {ns : List UInt64} {n : UInt64} :
    n ∈ Json.ids (slotWithout slot (ns.map Json.ofUInt64)) ↔ n ∈ Json.ids slot ∧ n ∉ ns := by
  cases slot with
  | none => simp [slotWithout, Json.ids]
  | some v => exact mem_ids_filter_not_contains

theorem get?_idChange (field : String) (ns : List UInt64) :
    (idChange field ns).get? field = if ns.isEmpty then none else some (ns.map Json.ofUInt64) := by
  rw [idChange]
  split
  · rfl
  · exact SortedMap.get?_insert_self _ _ _

/-- Adding and then removing ids, when the field holds a list. -/
theorem mem_idsAt_changeLists {i : Instance} {field : String} {added removed : List UInt64}
    (hdone : (i.changeLists (idChange field added) (idChange field removed)).2 = none) (n : UInt64) :
    n ∈ (i.changeLists (idChange field added) (idChange field removed)).1.idsAt field ↔
      (n ∈ i.idsAt field ∨ n ∈ added) ∧ n ∉ removed := by
  rw [idsAt, get?_changeLists_of_done hdone, get?_idChange, get?_idChange, slotChanged, idsAt]
  cases added <;> cases removed <;>
    simp only [List.isEmpty_nil, List.isEmpty_cons, if_true, Bool.false_eq_true, if_false,
      Option.elim_none, Option.elim_some, mem_ids_slotWith, mem_ids_slotWithout, List.not_mem_nil,
      or_false, not_false_eq_true, and_true]

theorem changeLists_idChange {i : Instance} {field : String}
    (hlist : (i.listAt? field).isSome = true) (added removed : List UInt64) :
    (i.changeLists (idChange field added) (idChange field removed)).2 = none ∧
      ((i.changeLists (idChange field added) (idChange field removed)).1.listAt? field).isSome =
        true := by
  have hfield : (i.listAt? field).isNone = false := by rw [← Option.not_isSome, hlist, Bool.not_true]
  have hblocked (ns : List UInt64) : i.blocked? (idChange field ns) = none := by
    rw [blocked?, idChange]
    split
    · rfl
    · change Option.map _ (List.find? _ [(field, _)]) = none
      simp [hfield]
  exact ⟨by rw [changeLists_blocked, hblocked, hblocked]; rfl,
    (isSome_listAt?_changeLists i _ _ field).trans hlist⟩

theorem get?_idChange_of_ne {field name : String} (h : name ≠ field) (ns : List UInt64) :
    (idChange field ns).get? name = none := by
  rw [idChange]
  split
  · rfl
  · exact SortedMap.get?_insert_of_ne _ h _

end Instance

end MeetingLedger
