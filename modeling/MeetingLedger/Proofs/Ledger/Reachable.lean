import MeetingLedger.Proofs.Dataset.Image
import MeetingLedger.Proofs.Ledger.Collection

/-!
# Histories that events lead to

Whatever events are tried on the empty history, applied or refused, the models that they leave know
their ids and hold no `null`. So the snapshot of such a history is one that a document can hold: it is
read back from its image, and it holds just the models that are not deleted.
-/

namespace MeetingLedger

/-- Fields of a model with its id among them and without a `null`. -/
structure Instance.Describes (i : Instance) (f : Fqid) : Prop where
  id : i.get? "id" = some (.ofUInt64 f.id)
  notNull : ∀ name, i.get? name ≠ some .null

namespace Instance.Describes

variable {i : Instance} {f : Fqid}

theorem merge (h : i.Describes f) (fields : Instance) : (i.merge fields).Describes f := by
  constructor
  · rw [get?_merge_id]
    exact h.id
  · intro name
    by_cases hname : name = "id"
    · rw [hname, get?_merge_id]
      exact h.notNull "id"
    · rw [get?_merge i fields hname]
      cases fields.get? name with
      | none => exact h.notNull name
      | some v => cases v <;> simp [Json.isNull]

theorem created (f : Fqid) (fields : Instance) : (History.created f fields).Describes f := by
  refine merge ⟨SortedMap.get?_insert_self _ _ _, fun name => ?_⟩ fields
  rw [SortedMap.get?_insert]
  split
  · exact nofun
  · exact nofun

theorem changeLists (h : i.Describes f) (add remove : ListChanges) :
    (i.changeLists add remove).1.Describes f := by
  have hid : i.listAt? "id" = none := by
    rw [listAt?, h.id]
    rfl
  constructor
  · rw [get?_changeLists_eq, get?_reached_of_not_list hid,
      get?_reachedRemovals_of_none (get?_reached_of_not_list hid)]
    exact h.id
  · intro name
    rw [get?_changeLists_eq]
    exact slotChanged_ne_null (h.notNull name) _ _

theorem withId_eq (h : i.Describes f) : History.withId f.id i = i := by
  refine SortedMap.ext_get? fun name => ?_
  by_cases hname : name = "id"
  · rw [hname, History.withId, SortedMap.get?_insert_self, h.id]
  · exact History.get?_withId hname

end Instance.Describes

namespace History

section Snapshots

/-- What holds of the empty snapshot and is kept by the models of a history holds of its snapshot. -/
theorem toSnapshot_induction {h : History} {index : UInt64} {P : Snapshot → Prop}
    (empty : P (.empty index))
    (insert : ∀ f m s, h.models.get? f = some m → P s → P (s.insert f.collection f.id m.fields)) :
    P (h.toSnapshot index) := by
  rw [toSnapshot]
  refine List.foldlRecOn _ _ empty fun s hs e he => ?_
  obtain ⟨f, m⟩ := e
  dsimp only
  split
  · exact hs
  · exact insert f m s (SortedMap.mem_entries_iff.1 he) hs

/-- A history of models with names that can be read has a regular snapshot. -/
theorem isRegular_toSnapshot {h : History} (hnames : ∀ f, h.models.contains f = true → f.IsReadable)
    (index : UInt64) : (h.toSnapshot index).IsRegular :=
  toSnapshot_induction (Snapshot.isRegular_empty index) fun f _ _ hf hs =>
    Snapshot.isRegular_insert hs (hnames f (Option.isSome_of_eq_some hf)) _

theorem migrationIndex_toSnapshot (h : History) (index : UInt64) :
    (h.toSnapshot index).migrationIndex = some index :=
  toSnapshot_induction (P := fun s => s.migrationIndex = some index) rfl fun _ _ _ _ hs => hs

theorem exists_of_collection?_toSnapshot {h : History} {index : UInt64} {name : String} :
    ((h.toSnapshot index).collection? name).isSome = true →
      ∃ id, ((h.toSnapshot index).get? ⟨name, id⟩).isSome = true := by
  refine toSnapshot_induction (P := fun s => (s.collection? name).isSome = true →
    ∃ id, (s.get? ⟨name, id⟩).isSome = true) nofun fun f m s _ hs hmodels => ?_
  by_cases hname : name = f.collection
  · exact ⟨f.id, by rw [hname, Snapshot.instance?_insert, if_pos rfl]; rfl⟩
  · rw [Snapshot.collection?, Snapshot.insert, SortedMap.get?_update, if_neg hname] at hmodels
    obtain ⟨id, hid⟩ := hs hmodels
    refine ⟨id, ?_⟩
    rw [Snapshot.instance?_insert, if_neg fun heq => hname (congrArg Fqid.collection heq)]
    exact hid

end Snapshots

/-- Every model, deleted or not, has a name that can be read and fields that a model may have. -/
def IsWellFormed (h : History) : Prop :=
  ∀ f m, h.models.get? f = some m → f.IsReadable ∧ m.fields.Describes f

namespace IsWellFormed

variable {h : History}

theorem put (hwf : h.IsWellFormed) {f : Fqid} {i : Instance} (hf : f.IsReadable)
    (hi : i.Describes f) (deleted : Bool) : (h.put f i deleted).IsWellFormed := by
  intro g m hm
  rw [History.put, SortedMap.get?_insert] at hm
  split at hm
  · rename_i heq
    obtain rfl := Option.some.inj hm
    subst heq
    exact ⟨hf, hi⟩
  · exact hwf g m hm

theorem describes_of_get? (hwf : h.IsWellFormed) {f : Fqid} {i : Instance} (hi : h.get? f = some i) :
    i.Describes f :=
  (hwf f ⟨i, false⟩ (get?_eq_some_iff.1 hi)).2

/-- An attempt to apply an event leaves a well-formed history well-formed, also if it fails. -/
theorem apply (hwf : h.IsWellFormed) {e : Event} (hname : e.fqid.IsReadable) :
    (h.apply e).history.IsWellFormed := by
  cases e with
  | create f fields =>
    rw [History.apply]
    split
    · exact hwf
    · exact hwf.put hname (.created f fields) false
  | update f fields =>
    rw [History.apply]
    cases hi : h.get? f with
    | none => exact hwf
    | some i => exact hwf.put hname ((hwf.describes_of_get? hi).merge fields) false
  | listUpdate f add remove =>
    rw [History.apply]
    cases hi : h.get? f with
    | none => exact hwf
    | some i => exact hwf.put hname ((hwf.describes_of_get? hi).changeLists add remove) false
  | delete f =>
    rw [History.apply]
    cases hi : h.get? f with
    | none => exact hwf
    | some i => exact hwf.put hname (hwf.describes_of_get? hi) true
  | restore f =>
    rw [History.apply]
    cases hm : h.models.get? f with
    | none => exact hwf
    | some m =>
      dsimp only
      split
      · exact hwf.put hname (hwf f m hm).2 false
      · exact hwf

/-- A snapshot of a well-formed history holds just its models that are not deleted. -/
theorem get?_toSnapshot (hwf : h.IsWellFormed) (index : UInt64) (f : Fqid) :
    (h.toSnapshot index).get? f = h.get? f := by
  rw [History.get?_toSnapshot]
  cases hi : h.get? f with
  | none => rfl
  | some i => exact congrArg some (hwf.describes_of_get? hi).withId_eq

end IsWellFormed

def attemptAll (h : History) (es : List Event) : History :=
  es.foldl (fun h e => (h.apply e).history) h

theorem IsWellFormed.attemptAll {h : History} (hwf : h.IsWellFormed) {es : List Event}
    (hnames : ∀ e ∈ es, e.fqid.IsReadable) : (h.attemptAll es).IsWellFormed := by
  induction es generalizing h with
  | nil => exact hwf
  | cons e es ih =>
    obtain ⟨hfirst, hrest⟩ := List.forall_mem_cons.1 hnames
    exact ih (hwf.apply hfirst) hrest

/-- After any attempts on the empty history, every model, deleted or not, holds its own id and no
`null`, and at every migration index the snapshot is read back from its JSON image and holds just
the models that are not deleted. -/
theorem attempts_leave_dataset {es : List Event} (hnames : ∀ e ∈ es, e.fqid.IsReadable) :
    let h := History.empty.attemptAll es
    (∀ f m, h.models.get? f = some m →
      m.fields.get? "id" = some (.ofUInt64 f.id) ∧ ∀ name, m.fields.get? name ≠ some .null) ∧
    ∀ index, let s := h.toSnapshot index
      Snapshot.ofJson s.toJson = .ok s ∧ s.migrationIndex = some index ∧
        (∀ f, s.get? f = h.get? f) ∧ ∀ name ∈ s.collectionNames, ∃ id, h.hasLive ⟨name, id⟩ = true := by
  intro h
  have hempty : empty.IsWellFormed := by
    rintro f m ⟨⟩
  have hwf : h.IsWellFormed := hempty.attemptAll hnames
  refine ⟨fun f m hm => ⟨(hwf f m hm).2.id, (hwf f m hm).2.notNull⟩, fun index => ?_⟩
  refine ⟨Snapshot.ofJson_toJson (isRegular_toSnapshot (fun f hf => ?_) index),
    migrationIndex_toSnapshot h index, hwf.get?_toSnapshot index, fun name hname => ?_⟩
  · obtain ⟨m, hm⟩ := Option.isSome_iff_exists.1 hf
    exact (hwf f m hm).1
  · obtain ⟨id, hid⟩ := exists_of_collection?_toSnapshot (SortedMap.mem_keys_iff.1 hname)
    rw [hwf.get?_toSnapshot index] at hid
    exact ⟨id, hid⟩

/-- A group that takes a list of members and refuses one in place of its name, after it took another
list, and a topic that is deleted. -/
def halfRefused : List Event :=
  [.create ⟨"group", 1⟩ (.ofList [("id", .ofNat 7), ("name", .string "Delegates")]),
    .listUpdate ⟨"group", 1⟩ (.ofList [("member_ids", [.ofNat 1]), ("name", [.ofNat 2])]) ∅,
    .update ⟨"group", 1⟩ (.ofList [("id", .null), ("note", .null)]),
    .create ⟨"topic", 1⟩ ∅, .delete ⟨"topic", 1⟩, .create ⟨"topic", 1⟩ ∅]

theorem attempts_leave_dataset_of_halfRefused :
    (∀ e ∈ halfRefused, e.fqid.IsReadable) ∧
      let h := History.empty.attemptAll halfRefused
      ((h.get? ⟨"group", 1⟩).map (·.keys)) = some ["id", "member_ids", "name"] ∧
      ∀ index, Snapshot.ofJson (h.toSnapshot index).toJson = .ok (h.toSnapshot index) := by
  have hnames : ∀ e ∈ halfRefused, e.fqid.IsReadable := by decide +kernel
  exact ⟨hnames, by decide +kernel, fun index => ((attempts_leave_dataset hnames).2 index).1⟩

end History

end MeetingLedger
