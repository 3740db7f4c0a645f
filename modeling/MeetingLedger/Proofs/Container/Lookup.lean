import MeetingLedger.Container.SortedMap

/-!
# Lookups in sorted maps

What a lookup answers after each operation on a sorted map. A map is determined by its lookups, and
its entries are the pairs that the lookups know.
-/

namespace MeetingLedger

variable {κ α β : Type} [Ord κ] [DecidableEq κ] [Std.TransOrd κ] [Std.LawfulEqOrd κ]

namespace Entries

omit [Std.TransOrd κ] in
theorem find?_cons (k : κ) (e : κ × α) (es : List (κ × α)) :
    find? k (e :: es) =
      if k = e.1 then some e.2 else if compare k e.1 = .lt then none else find? k es := by
  rw [find?]
  split
  · rename_i h
    have hne : k ≠ e.1 := by
      rintro rfl
      simp at h
    simp [hne, h]
  · rename_i h
    simp [Std.LawfulEqCmp.eq_of_compare h]
  · rename_i h
    have hne : k ≠ e.1 := by
      rintro rfl
      simp at h
    simp [hne, h]

theorem find?_put (k k' : κ) (a : α) (es : List (κ × α)) :
    find? k' (put k a es) = if k' = k then some a else find? k' es := by
  induction es with
  | nil => simp [put, find?_cons, find?]
  | cons e es ih =>
    rw [put]
    split
    · rename_i hlt
      rw [find?_cons]
      by_cases hk : k' = k
      · simp [hk]
      · by_cases hlt' : compare k' k = .lt
        · have hke : compare k' e.1 = .lt := Std.TransCmp.lt_trans hlt' hlt
          simp [hk, hlt', find?, hke]
        · simp [hk, hlt']
    · rename_i heq
      have hke : k = e.1 := Std.LawfulEqCmp.eq_of_compare heq
      by_cases hk : k' = k <;> simp [find?_cons, ← hke, hk]
    · rename_i hgt
      have hne : k ≠ e.1 := by
        rintro rfl
        simp at hgt
      by_cases hk : k' = k
      · subst hk
        simp [find?_cons, hne, hgt, ih]
      · simp [find?_cons, hk, ih]

omit [DecidableEq κ] [Std.TransOrd κ] [Std.LawfulEqOrd κ] in
theorem find?_eq_none_of_lt {k : κ} {es : List (κ × α)}
    (h : ∀ e ∈ es, compare k e.1 = .lt) : find? k es = none := by
  cases es with
  | nil => rfl
  | cons e es => simp [find?, h e]

omit [DecidableEq κ] in
/-- The order leaves a set of entries a single list to be. -/
theorem eq_of_mem_iff {es ds : List (κ × α)} (hes : Ascending es) (hds : Ascending ds)
    (h : ∀ e, e ∈ es ↔ e ∈ ds) : es = ds := by
  have distinct {es : List (κ × α)} (h : Ascending es) : es.Nodup :=
    h.imp fun hlt heq => by simp [heq] at hlt
  have hperm : es.Perm ds := (List.perm_ext_iff_of_nodup (distinct hes) (distinct hds)).2 h
  refine hperm.eq_of_pairwise (fun d e _ _ hlt hgt => ?_) hes hds
  have hloop := Std.TransCmp.lt_trans hlt hgt
  simp at hloop

theorem mem_iff_find? {es : List (κ × α)} (h : Ascending es) {k : κ} {a : α} :
    (k, a) ∈ es ↔ find? k es = some a := by
  induction es with
  | nil => simp [find?]
  | cons e es ih =>
    obtain ⟨he, hes⟩ := List.pairwise_cons.1 h
    rw [List.mem_cons, ih hes, find?_cons]
    by_cases hk : k = e.1
    · subst hk
      have hnone : find? e.1 es = none := find?_eq_none_of_lt he
      simp [hnone, Prod.ext_iff, eq_comm]
    · have hne : (k, a) ≠ e := fun heq => hk (congrArg Prod.fst heq)
      by_cases hlt : compare k e.1 = .lt
      · have hnone : find? k es = none :=
          find?_eq_none_of_lt fun d hd => Std.TransCmp.lt_trans hlt (he d hd)
        simp [hne, hk, hlt, hnone]
      · simp [hne, hk, hlt]

theorem find?_erase {es : List (κ × α)} (h : Ascending es) (k k' : κ) :
    find? k' (erase k es) = if k' = k then none else find? k' es := by
  induction es with
  | nil => simp [erase, find?]
  | cons e es ih =>
    obtain ⟨he, hes⟩ := List.pairwise_cons.1 h
    rw [erase]
    split
    · rename_i hlt
      by_cases hk : k' = k
      · simp [hk, find?, hlt]
      · simp [hk]
    · rename_i heq
      have hke : k = e.1 := Std.LawfulEqCmp.eq_of_compare heq
      by_cases hk : k' = k
      · subst hk
        simp [hke, find?_eq_none_of_lt he]
      · have hne : k' ≠ e.1 := hke ▸ hk
        by_cases hlt : compare k' e.1 = .lt
        · have hnone : find? k' es = none :=
            find?_eq_none_of_lt fun d hd => Std.TransCmp.lt_trans hlt (he d hd)
          simp [hk, hne, hlt, find?_cons, hnone]
        · simp [hk, hne, hlt, find?_cons]
    · rename_i hgt
      have hne : k ≠ e.1 := by
        rintro rfl
        simp at hgt
      by_cases hk : k' = k
      · subst hk
        simp [find?_cons, hne, hgt, ih hes]
      · simp [find?_cons, ih hes, hk]

theorem foldl_at (k : κ) (f : α → β → β) {es : List (κ × α)} (h : Ascending es) (b : β) :
    es.foldl (fun b e => if e.1 = k then f e.2 b else b) b =
      (find? k es).elim b (f · b) := by
  induction es generalizing b with
  | nil => rfl
  | cons e es ih =>
    obtain ⟨he, hes⟩ := List.pairwise_cons.1 h
    rw [List.foldl_cons, ih hes, find?_cons]
    by_cases hk : k = e.1
    · subst hk
      simp [find?_eq_none_of_lt he]
    · by_cases hlt : compare k e.1 = .lt
      · have hnone : find? k es = none :=
          find?_eq_none_of_lt fun d hd => Std.TransCmp.lt_trans hlt (he d hd)
        simp [hk, Ne.symm hk, hlt, hnone]
      · simp [hk, Ne.symm hk, hlt]

end Entries

namespace SortedMap

variable {m n : SortedMap κ α}

omit [DecidableEq κ] [Std.TransOrd κ] [Std.LawfulEqOrd κ] in
@[simp] theorem get?_empty (k : κ) : (∅ : SortedMap κ α).get? k = none := rfl

omit [DecidableEq κ] [Std.TransOrd κ] [Std.LawfulEqOrd κ] in
@[simp] theorem entries_empty : (∅ : SortedMap κ α).entries = [] := rfl

theorem get?_insert (m : SortedMap κ α) (k k' : κ) (a : α) :
    (m.insert k a).get? k' = if k' = k then some a else m.get? k' :=
  Entries.find?_put k k' a m.entries

@[simp] theorem get?_insert_self (m : SortedMap κ α) (k : κ) (a : α) :
    (m.insert k a).get? k = some a := by
  simp [get?_insert]

theorem get?_insert_of_ne (m : SortedMap κ α) {k k' : κ} (h : k' ≠ k) (a : α) :
    (m.insert k a).get? k' = m.get? k' := by
  simp [get?_insert, h]

theorem get?_erase (m : SortedMap κ α) (k k' : κ) :
    (m.erase k).get? k' = if k' = k then none else m.get? k' :=
  Entries.find?_erase m.ascending k k'

theorem get?_update (m : SortedMap κ α) (k k' : κ) (d : α) (f : α → α) :
    (m.update k d f).get? k' =
      if k' = k then some (f ((m.get? k).getD d)) else m.get? k' :=
  get?_insert m k k' _

theorem mem_entries_iff {k : κ} {a : α} : (k, a) ∈ m.entries ↔ m.get? k = some a :=
  Entries.mem_iff_find? m.ascending

theorem ext_get? (h : ∀ k, m.get? k = n.get? k) : m = n := by
  refine ext_entries (Entries.eq_of_mem_iff m.ascending n.ascending fun e => ?_)
  rw [mem_entries_iff, mem_entries_iff, h]

theorem mem_keys_iff {k : κ} : k ∈ m.keys ↔ m.contains k = true := by
  rw [keys, contains, Option.isSome_iff_exists, List.mem_map]
  constructor
  · rintro ⟨⟨k', a⟩, hmem, rfl⟩
    exact ⟨a, mem_entries_iff.1 hmem⟩
  · rintro ⟨a, ha⟩
    exact ⟨(k, a), mem_entries_iff.2 ha, rfl⟩

theorem get?_eq_none_iff {k : κ} : m.get? k = none ↔ k ∉ m.keys := by
  rw [mem_keys_iff, contains, Option.not_isSome_iff_eq_none]

theorem get?_filter (p : κ → α → Bool) (m : SortedMap κ α) (k : κ) :
    (m.filter p).get? k = (m.get? k).filter (p k) := by
  apply Option.ext
  intro a
  rw [← mem_entries_iff, Option.filter_eq_some_iff, ← mem_entries_iff]
  exact List.mem_filter

theorem get?_mapValues (f : κ → α → β) (m : SortedMap κ α) (k : κ) :
    (m.mapValues f).get? k = (m.get? k).map (f k) := by
  apply Option.ext
  intro b
  rw [← mem_entries_iff, Option.map_eq_some_iff, mapValues]
  constructor
  · intro hmem
    obtain ⟨⟨k', a⟩, ha, heq⟩ := List.mem_map.1 hmem
    cases heq
    exact ⟨a, mem_entries_iff.1 ha, rfl⟩
  · rintro ⟨a, ha, rfl⟩
    exact List.mem_map.2 ⟨(k, a), mem_entries_iff.2 ha, rfl⟩

theorem isEmpty_iff : m.isEmpty = true ↔ ∀ k, m.get? k = none := by
  rw [isEmpty, List.isEmpty_iff]
  constructor
  · intro h k
    cases m
    subst h
    rfl
  · intro h
    rw [List.eq_nil_iff_forall_not_mem]
    rintro ⟨k, a⟩ hmem
    have hsome := mem_entries_iff.1 hmem
    rw [h k] at hsome
    cases hsome

theorem contains_insert (m : SortedMap κ α) (k k' : κ) (a : α) :
    (m.insert k a).contains k' = (decide (k' = k) || m.contains k') := by
  by_cases hk : k' = k <;> simp [contains, get?_insert, hk]

theorem contains_erase (m : SortedMap κ α) (k k' : κ) :
    (m.erase k).contains k' = (!decide (k' = k) && m.contains k') := by
  by_cases hk : k' = k <;> simp [contains, get?_erase, hk]

theorem mem_of_get?_ofList {es : List (κ × α)} {k : κ} {a : α} (h : (ofList es).get? k = some a) :
    (k, a) ∈ es := by
  suffices ∀ acc, (k, a) ∈ es.foldl (fun es e => Entries.put e.1 e.2 es) acc →
      (k, a) ∈ acc ∨ (k, a) ∈ es by
    rcases this [] (mem_entries_iff.2 h) with hnil | hmem
    · cases hnil
    · exact hmem
  clear h
  induction es with
  | nil => exact fun acc h => .inl h
  | cons e es ih =>
    intro acc h
    rcases ih _ h with hput | hmem
    · rcases Entries.mem_put hput with heq | hacc
      · exact .inr (heq ▸ List.mem_cons_self)
      · exact .inl hacc
    · exact .inr (List.mem_cons_of_mem _ hmem)

theorem contains_ofList (es : List (κ × α)) (k : κ) :
    (ofList es).contains k = es.any fun e => decide (k = e.1) := by
  suffices ∀ acc, (Entries.find? k (es.foldl (fun es e => Entries.put e.1 e.2 es) acc)).isSome =
      ((Entries.find? k acc).isSome || es.any fun e => decide (k = e.1)) from this []
  induction es with
  | nil => simp
  | cons e es ih =>
    intro acc
    rw [List.foldl_cons, ih, Entries.find?_put, List.any_cons]
    by_cases hk : k = e.1 <;> simp [hk]

theorem mem_entries_ofList {es : List (κ × α)}
    (h : ∀ k a b, (k, a) ∈ es → (k, b) ∈ es → a = b) {e : κ × α} :
    e ∈ (ofList es).entries ↔ e ∈ es := by
  obtain ⟨k, a⟩ := e
  rw [mem_entries_iff]
  refine ⟨mem_of_get?_ofList, fun hmem => ?_⟩
  have hknown : (ofList es).contains k = true := by
    rw [contains_ofList]
    exact List.any_eq_true.2 ⟨(k, a), hmem, by simp⟩
  obtain ⟨b, hb⟩ := Option.isSome_iff_exists.1 hknown
  rw [hb, h k a b hmem (mem_of_get?_ofList hb)]

/-- The entries of a map in any order make up the map. -/
theorem ofList_eq {es : List (κ × α)} (h : ∀ e, e ∈ es ↔ e ∈ m.entries) : ofList es = m := by
  refine ext_entries (Entries.eq_of_mem_iff (ofList es).ascending m.ascending fun e => ?_)
  rw [mem_entries_ofList, h]
  intro k a b ha hb
  rw [h, mem_entries_iff] at ha hb
  exact Option.some.inj (ha.symm.trans hb)

@[simp] theorem ofList_entries (m : SortedMap κ α) : ofList m.entries = m :=
  ofList_eq fun _ => Iff.rfl

theorem entries_ofList {es : List (κ × α)} (h : Ascending es) : (ofList es).entries = es :=
  congrArg entries (ofList_eq (m := ⟨es, h⟩) fun _ => Iff.rfl)

/-- A fold that changes its value only at the entry of one key. -/
theorem foldl_entries_at (k : κ) (f : α → β → β) (m : SortedMap κ α) (b : β) :
    m.entries.foldl (fun b e => if e.1 = k then f e.2 b else b) b =
      (m.get? k).elim b (f · b) :=
  Entries.foldl_at k f m.ascending b

end SortedMap

end MeetingLedger
