import MeetingLedger.Proofs.Ledger.ModelView

/-!
# The models of one collection

The history lists the models of a collection, and so does a snapshot of it. Both hold the models
that are not deleted, by increasing id.
-/

namespace MeetingLedger

/-- In a list where everything behind an entry that is neither skipped nor kept is not kept, what is
skipped at the start and kept from there on is all that is kept. -/
theorem takeWhile_dropWhile_eq_filter {α : Type} {skip keep : α → Bool} {es : List α}
    (hdisjoint : ∀ e ∈ es, skip e = true → keep e = false)
    (horder : es.Pairwise fun d e => skip d = false → skip e = false ∧
      (keep d = false → keep e = false)) :
    (es.dropWhile skip).takeWhile keep = es.filter keep := by
  induction es with
  | nil => rfl
  | cons e es ih =>
    obtain ⟨hfirst, hrest⟩ := List.pairwise_cons.1 horder
    have ih := ih (fun d hd => hdisjoint d (List.mem_cons_of_mem _ hd)) hrest
    cases hskip : skip e with
    | true => simp [hskip, hdisjoint e List.mem_cons_self hskip, ih]
    | false =>
      have hnone : es.dropWhile skip = es := by
        cases es with
        | nil => rfl
        | cons d es => simp [(hfirst d List.mem_cons_self hskip).1]
      rw [hnone] at ih
      cases hkeep : keep e with
      | true => simp [hskip, hkeep, ih]
      | false =>
        have hempty : es.filter keep = [] := List.filter_eq_nil_iff.2 fun d hd => by
          simp [(hfirst d hd hskip).2 hkeep]
        simp [hskip, hkeep, hempty]

namespace History

variable (h : History) (name : String)

theorem block_eq_filter : h.block name = h.models.entries.filter (·.1.collection == name) := by
  have hcompare (f g : Fqid) : compare f g =
      (compare f.collection g.collection).then (compare f.id g.id) := rfl
  refine takeWhile_dropWhile_eq_filter (fun e _ hskip => ?_) ?_
  · rw [beq_iff_eq, hcompare, Ordering.then_eq_lt] at hskip
    rcases hskip with hlt | ⟨-, hid⟩
    · refine beq_false_of_ne fun heq => ?_
      simp [heq] at hlt
    · exact absurd (Std.compare_eq_lt.1 hid) UInt64.not_lt_zero
  · refine h.models.ascending.imp fun {d e} hlt hskip => ⟨?_, fun hd => ?_⟩
    · rw [beq_eq_false_iff_ne] at hskip ⊢
      exact fun he => hskip (Std.TransCmp.lt_trans hlt he)
    · rw [beq_eq_false_iff_ne] at hskip hd ⊢
      rintro rfl
      -- The collection of the first entry neither follows nor precedes that of the second.
      rw [hcompare, Ordering.then_eq_lt] at hlt
      rcases hlt with hlt | ⟨heq, -⟩
      · exact hskip (by rw [hcompare, Ordering.then_eq_lt]; exact .inl hlt)
      · exact hd (Std.LawfulEqCmp.eq_of_compare heq)

variable {h name}

theorem get?_eq_some_iff {f : Fqid} {i : Instance} :
    h.get? f = some i ↔ h.models.get? f = some ⟨i, false⟩ := by
  rw [get?]
  rcases h.models.get? f with _ | ⟨j, _ | _⟩ <;> simp

/-- The history lists the models of a collection that it finds. -/
theorem mem_collection_iff {id : UInt64} {i : Instance} :
    (id, i) ∈ h.collection name ↔ h.get? ⟨name, id⟩ = some i := by
  rw [collection, block_eq_filter, get?_eq_some_iff, ← SortedMap.mem_entries_iff]
  simp only [List.mem_map, List.mem_filter, beq_iff_eq, Bool.not_eq_true']
  constructor
  · rintro ⟨⟨f, m⟩, ⟨⟨hmem, rfl⟩, hlive⟩, heq⟩
    cases heq
    obtain ⟨j, deleted⟩ := m
    cases hlive
    exact hmem
  · intro hmem
    exact ⟨_, ⟨⟨hmem, rfl⟩, rfl⟩, rfl⟩

/-- The ids of a collection increase in the order of models. -/
theorem pairwise_block : (h.block name).Pairwise fun d e => d.1.id < e.1.id := by
  rw [block_eq_filter]
  refine List.Pairwise.imp_of_mem ?_ (h.models.ascending.filter _)
  intro d e hd he hlt
  have hname {e : Fqid × Model} (he : e ∈ h.models.entries.filter (·.1.collection == name)) :
      e.1.collection = name := by
    simpa using (List.mem_filter.1 he).2
  change (compare d.1.collection e.1.collection).then (compare d.1.id e.1.id) = .lt at hlt
  simpa [hname hd, hname he, Std.compare_eq_lt] using hlt

theorem ascending_collection : Ascending (h.collection name) := by
  rw [collection, Ascending, List.pairwise_map]
  exact (pairwise_block.filter _).imp Std.compare_eq_lt.2

def withId (id : UInt64) (i : Instance) : Instance := i.insert "id" (.ofUInt64 id)

theorem get?_withId {id : UInt64} {i : Instance} {field : String} (hfield : field ≠ "id") :
    (withId id i).get? field = i.get? field :=
  SortedMap.get?_insert_of_ne i hfield _

end History

namespace Snapshot

theorem instance?_insert (s : Snapshot) (f g : Fqid) (i : Instance) :
    (s.insert f.collection f.id i).get? g =
      if g = f then some (History.withId f.id i) else s.get? g := by
  have hfqid : g = f ↔ g.collection = f.collection ∧ g.id = f.id := by
    cases f
    cases g
    simp
  simp only [hfqid, get?, instance?, collection?, insert, SortedMap.get?_update]
  by_cases hname : g.collection = f.collection
  · by_cases hid : g.id = f.id
    · simp [hname, hid, History.withId]
    · rcases hmodels : s.collections.get? f.collection with _ | models <;>
        simp [hname, hid, hmodels, SortedMap.get?_insert]
  · simp [hname]

end Snapshot

namespace History

variable (h : History) (name : String) (index : UInt64)

/-- A snapshot holds the models that the history finds. -/
theorem get?_toSnapshot (f : Fqid) :
    (h.toSnapshot index).get? f = (h.get? f).map (withId f.id) := by
  have hfold : ∀ (es : List (Fqid × Model)) (s : Snapshot),
      (es.foldl (fun s e => if e.2.deleted then s else s.insert e.1.collection e.1.id e.2.fields)
        s).get? f =
      es.foldl (fun slot e => if e.1 = f then
        (if e.2.deleted then slot else some (withId f.id e.2.fields)) else slot) (s.get? f) := by
    intro es
    induction es with
    | nil => exact fun _ => rfl
    | cons e es ih =>
      intro s
      obtain ⟨g, i, deleted⟩ := e
      rw [List.foldl_cons, List.foldl_cons, ih]
      congr 1
      cases deleted with
      | true => simp
      | false =>
        simp only [Bool.false_eq_true, if_false, Snapshot.instance?_insert]
        by_cases hf : f = g
        · subst hf
          simp
        · simp [hf, Ne.symm hf]
  have hat := SortedMap.foldl_entries_at f
    (fun m slot => if m.deleted then slot else some (withId f.id m.fields)) h.models
    ((Snapshot.empty index).get? f)
  refine (hfold h.models.entries (.empty index)).trans (hat.trans ?_)
  rw [get?]
  rcases h.models.get? f with _ | ⟨i, _ | _⟩ <;> rfl

theorem entries_toSnapshot :
    (((h.toSnapshot index).collection? name).map (·.entries)).getD [] =
      (h.collection name).map fun e => (e.1, withId e.1 e.2) := by
  refine Entries.eq_of_mem_iff ?_ ?_ ?_
  · cases (h.toSnapshot index).collection? name with
    | none => exact List.Pairwise.nil
    | some models => exact models.ascending
  · rw [Ascending, List.pairwise_map]
    exact ascending_collection
  · rintro ⟨id, i⟩
    have hmem : (id, i) ∈ (((h.toSnapshot index).collection? name).map (·.entries)).getD [] ↔
        (h.toSnapshot index).get? ⟨name, id⟩ = some i := by
      rw [Snapshot.get?, Snapshot.instance?]
      cases (h.toSnapshot index).collection? name with
      | none => simp
      | some models => simp [SortedMap.mem_entries_iff]
    rw [hmem, get?_toSnapshot, List.mem_map]
    simp only [Option.map_eq_some_iff, Prod.exists, mem_collection_iff, Prod.mk.injEq]
    constructor
    · rintro ⟨j, hj, rfl⟩
      exact ⟨id, j, hj, rfl, rfl⟩
    · rintro ⟨id, j, hj, rfl, rfl⟩
      exact ⟨j, hj, rfl⟩

end History

end MeetingLedger
