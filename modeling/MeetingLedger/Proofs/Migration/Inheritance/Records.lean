import MeetingLedger.Proofs.Dataset.Visibility
import MeetingLedger.Proofs.Migration.Inheritance.Resolve

/-!
# Records after the step

What the changes leave when they are applied. They always apply; every file then records the
visibility that was derived for it, and apart from the lists of groups nothing else is touched.
-/

namespace MeetingLedger.Migration.FileInheritance

def corrected (file : Instance) (due : Visibility) : Instance := file.merge (corrections file due)

section Corrected

variable (file : Instance) (due : Visibility)

theorem get?_corrections_isPublic : (corrections file due).get? "is_public" =
    if file.boolAt? "is_public" = some due.isPublic then none
    else some (.boolean due.isPublic) := by
  rw [corrections]
  split <;> split <;> simp [SortedMap.get?_insert]

theorem get?_corrections_groups : (corrections file due).get? "inherited_access_group_ids" =
    if recordedGroups file = IdSet.ofIds due.groups then none else some (.ofIds due.groups) := by
  rw [corrections]
  split <;> split <;> simp [SortedMap.get?_insert]

theorem get?_corrections_of_ne {field : String} (hpublic : field ≠ "is_public")
    (hgroups : field ≠ "inherited_access_group_ids") : (corrections file due).get? field = none := by
  rw [corrections]
  split <;> split <;> simp [SortedMap.get?_insert, hpublic, hgroups]

theorem boolAt?_corrected : (corrected file due).boolAt? "is_public" = some due.isPublic := by
  rw [Instance.boolAt?, corrected, Instance.get?_merge _ _ (by decide), get?_corrections_isPublic]
  by_cases h : file.boolAt? "is_public" = some due.isPublic
  · rw [if_pos h]
    exact h
  · simp [h, Json.isNull, Json.bool?]

theorem recordedGroups_corrected :
    recordedGroups (corrected file due) = IdSet.ofIds due.groups := by
  rw [recordedGroups, Instance.idsAt, corrected, Instance.get?_merge _ _ (by decide),
    get?_corrections_groups]
  by_cases h : recordedGroups file = IdSet.ofIds due.groups
  · rw [if_pos h]
    exact h
  · have hids : Json.ids (some (Json.ofIds due.groups)) = due.groups := Json.ids_ofIds due.groups
    simpa [h, Json.isNull, Json.ofIds] using congrArg IdSet.ofIds hids

theorem get?_corrected {field : String} (hpublic : field ≠ "is_public")
    (hgroups : field ≠ "inherited_access_group_ids") :
    (corrected file due).get? field = file.get? field :=
  Instance.get?_merge_of_none (get?_corrections_of_ne file due hpublic hgroups)

theorem stored_corrected : (Visibility.stored (corrected file due)).Same due := by
  refine ⟨?_, recordedGroups_corrected file due⟩
  rw [Visibility.stored, boolAt?_corrected]
  rfl

theorem corrected_of_isEmpty (h : (corrections file due).isEmpty = true) :
    corrected file due = file := by
  rw [SortedMap.isEmpty, List.isEmpty_iff] at h
  rw [corrected, Instance.merge, h]
  rfl

end Corrected

section Requests

variable (h : History) (known : Tree.Known)

def fileEvent? (id : UInt64) (n : Node) : Option Event :=
  let fields := corrections n.file (known.directory (some id))
  if fields.isEmpty then none else some (.update ⟨fileCollection, id⟩ fields)

def groupEvent? (group : UInt64) (changes : SortedMap UInt64 Bool) : Option Event :=
  (groupChange? h group changes).map ModelChange.toEvent

/-- For each group of a history the files that start or stop to inherit it. -/
def groupChanges : GroupChanges :=
  (Tree.ofHistory h).entries.foldl
    (fun changes e => noteGroups e.1 e.2.file (known.directory (some e.1)) changes) ∅

def events : List Event :=
  (modelChanges h (Tree.ofHistory h) known).map ModelChange.toEvent

variable {h known}

theorem fqid_of_fileEvent? (id : UInt64) (n : Node) (e : Event)
    (he : fileEvent? known id n = some e) : e.fqid = ⟨fileCollection, id⟩ := by
  rw [fileEvent?] at he
  split at he
  · cases he
  · cases he
    rfl

theorem fqid_of_groupEvent? (group : UInt64) (changes : SortedMap UInt64 Bool) (e : Event)
    (he : groupEvent? h group changes = some e) : e.fqid = ⟨"group", group⟩ := by
  rw [groupEvent?, groupChange?, Option.map_map] at he
  obtain ⟨i, -, rfl⟩ := Option.map_eq_some_iff.1 he
  rfl

theorem events_eq_append : events h known =
    ((Tree.ofHistory h).entries.filterMap fun e => fileEvent? known e.1 e.2) ++
      (groupChanges h known).entries.filterMap fun e => groupEvent? h e.1 e.2 := by
  rw [events, modelChanges, List.map_append, List.map_filterMap, List.map_filterMap]
  congr 2
  funext e
  rw [fileEvent?, apply_ite (Option.map ModelChange.toEvent)]
  rfl

/-- What the changes make of the model with a given name: the events of files and those of groups
are about collections of their own. -/
theorem modelAfter?_events (f : Fqid) (model : Option Model) :
    History.modelAfter? f (events h known) model =
      if f.collection = fileCollection then
        (((Tree.ofHistory h).get? f.id).bind (fileEvent? known f.id)).elim (some model)
          fun e => (e.next? model).map some
      else if f.collection = "group" then
        (((groupChanges h known).get? f.id).bind (groupEvent? h f.id)).elim (some model)
          fun e => (e.next? model).map some
      else some model := by
  have fileEvents_ne {f : Fqid} (hne : f.collection ≠ fileCollection) :
      ∀ e ∈ (Tree.ofHistory h).entries.filterMap fun e => fileEvent? known e.1 e.2, e.fqid ≠ f := by
    intro e he
    obtain ⟨⟨id, n⟩, -, hevent⟩ := List.mem_filterMap.1 he
    rw [fqid_of_fileEvent? _ _ _ hevent]
    rintro rfl
    exact hne rfl
  have groupEvents_ne {f : Fqid} (hne : f.collection ≠ "group") :
      ∀ e ∈ (groupChanges h known).entries.filterMap fun e => groupEvent? h e.1 e.2,
        e.fqid ≠ f := by
    intro e he
    obtain ⟨⟨group, changes⟩, -, hevent⟩ := List.mem_filterMap.1 he
    rw [fqid_of_groupEvent? _ _ _ hevent]
    rintro rfl
    exact hne rfl
  obtain ⟨collection, id⟩ := f
  rw [events_eq_append, History.modelAfter?_append]
  by_cases hfile : collection = fileCollection
  · subst hfile
    have hgroups : History.modelAfter? ⟨fileCollection, id⟩ ((groupChanges h known).entries.filterMap
        fun e => groupEvent? h e.1 e.2) = some :=
      funext (History.modelAfter?_of_forall_ne (groupEvents_ne (by simp [fileCollection])))
    rw [if_pos rfl, hgroups, Option.bind_fun_some]
    exact History.modelAfter?_filterMap fqid_of_fileEvent?
      (fun _ _ heq => (Fqid.mk.inj heq).2) _ _ _
  · rw [if_neg hfile, History.modelAfter?_of_forall_ne (fileEvents_ne hfile), Option.bind_some]
    by_cases hgroup : collection = "group"
    · subst hgroup
      rw [if_pos rfl]
      exact History.modelAfter?_filterMap fqid_of_groupEvent?
        (fun _ _ heq => (Fqid.mk.inj heq).2) _ _ _
    · rw [if_neg hgroup, History.modelAfter?_of_forall_ne (groupEvents_ne hgroup)]

theorem exists_applyAll_events (h : History) (known : Tree.Known) :
    ∃ h', h.applyAll (events h known) = ⟨h', none⟩ := by
  refine History.applyAll_of_modelAfter? fun f => ?_
  rw [modelAfter?_events]
  split
  · rename_i hfile
    cases hevent : ((Tree.ofHistory h).get? f.id).bind (fileEvent? known f.id) with
    | none => rfl
    | some e =>
      obtain ⟨n, hn, hevent⟩ := Option.bind_eq_some_iff.1 hevent
      have hlive := History.mem_collection_iff.1 (Tree.mem_of_get?_ofHistory hn)
      rw [← hfile, History.get?_eq_some_iff] at hlive
      rw [fileEvent?] at hevent
      split at hevent
      · cases hevent
      · cases hevent
        simp [hlive, Event.next?]
  · split
    · rename_i hgroup
      cases hevent : ((groupChanges h known).get? f.id).bind (groupEvent? h f.id) with
      | none => rfl
      | some e =>
        obtain ⟨changes, -, hevent⟩ := Option.bind_eq_some_iff.1 hevent
        rw [groupEvent?, groupChange?, Option.map_map, ← hgroup] at hevent
        obtain ⟨i, hlive, rfl⟩ := Option.map_eq_some_iff.1 hevent
        rw [History.get?_eq_some_iff] at hlive
        simp [hlive, Event.next?, ModelChange.toEvent]
    · rfl

variable {h' : History} (happly : h.applyAll (events h known) = ⟨h', none⟩)

include happly

/-- Every file is corrected. -/
theorem get?_file_of_applyAll (id : UInt64) : h'.get? ⟨fileCollection, id⟩ =
    (h.get? ⟨fileCollection, id⟩).map (corrected · (known.directory (some id))) := by
  have hafter := History.modelAfter?_of_applyAll happly ⟨fileCollection, id⟩
  rw [modelAfter?_events, if_pos rfl, Tree.get?_ofHistory_eq_map] at hafter
  cases hfile : h.get? ⟨fileCollection, id⟩ with
  | none =>
    rw [hfile, Option.map_none, Option.bind_none, Option.elim_none, Option.some_inj] at hafter
    rw [History.get?, ← hafter, ← History.get?, hfile, Option.map_none]
  | some file =>
    rw [hfile, Option.map_some, Option.bind_some, fileEvent?] at hafter
    rw [Option.map_some, History.get?_eq_some_iff]
    rw [History.get?_eq_some_iff] at hfile
    split at hafter
    · rename_i hempty
      rw [Option.elim_none, Option.some_inj] at hafter
      rw [← hafter, hfile, corrected_of_isEmpty _ _ hempty]
    · rw [Option.elim_some, hfile] at hafter
      exact (Option.some.inj hafter).symm

theorem collection_of_applyAll : h'.collection fileCollection = (h.collection fileCollection).map
    fun e => (e.1, corrected e.2 (known.directory (some e.1))) := by
  refine Entries.eq_of_mem_iff History.ascending_collection ?_ ?_
  · rw [Ascending, List.pairwise_map]
    exact History.ascending_collection
  · rintro ⟨id, file⟩
    rw [History.mem_collection_iff, get?_file_of_applyAll happly, List.mem_map]
    simp only [Option.map_eq_some_iff, Prod.exists, History.mem_collection_iff, Prod.mk.injEq]
    constructor
    · rintro ⟨i, hi, rfl⟩
      exact ⟨id, i, hi, rfl, rfl⟩
    · rintro ⟨id, i, hi, rfl, rfl⟩
      exact ⟨i, hi, rfl⟩

/-- Nothing else is touched, apart from groups. -/
theorem get?_of_applyAll {f : Fqid} (hfile : f.collection ≠ fileCollection)
    (hgroup : f.collection ≠ "group") : h'.get? f = h.get? f := by
  have hafter := History.modelAfter?_of_applyAll happly f
  rw [modelAfter?_events, if_neg hfile, if_neg hgroup] at hafter
  rw [History.get?, History.get?, Option.some.inj hafter]

end Requests

section InLine

variable {h : History} {known : Tree.Known} {id : UInt64} {file : Instance}

theorem noteGroups_eq_self {due : Visibility} (hsame : (Visibility.stored file).Same due)
    (changes : GroupChanges) : noteGroups id file due changes = changes := by
  have hgroups : recordedGroups file = IdSet.ofIds due.groups := hsame.2
  have hnone (ids : IdSet) : (ids.keys.filter fun group => !ids.contains group) = [] := by
    rw [List.filter_eq_nil_iff]
    intro group hgroup
    simp [SortedMap.mem_keys_iff.1 hgroup]
  simp [noteGroups, hgroups, hnone]

theorem corrections_eq_empty {due : Visibility} (hpublic : (file.boolAt? "is_public").isSome = true)
    (hsame : (Visibility.stored file).Same due) : corrections file due = ∅ := by
  obtain ⟨mark, hmark⟩ := Option.isSome_iff_exists.1 hpublic
  have hdue : mark = due.isPublic := by
    have := hsame.1
    rwa [Visibility.stored, hmark] at this
  have hgroups : recordedGroups file = IdSet.ofIds due.groups := hsame.2
  simp [corrections, hmark, hdue, hgroups]

/-- Files that record what is derived need no changes. -/
theorem modelChanges_eq_nil (hpublic : ∀ id file, (id, file) ∈ h.collection fileCollection →
      (file.boolAt? "is_public").isSome = true)
    (hsame : ∀ id file, (id, file) ∈ h.collection fileCollection →
      (Visibility.stored file).Same (known.directory (some id))) :
    modelChanges h (Tree.ofHistory h) known = [] := by
  have hmem {e : UInt64 × Node} (he : e ∈ (Tree.ofHistory h).entries) :
      (e.1, e.2.file) ∈ h.collection fileCollection :=
    Tree.mem_of_get?_ofHistory (SortedMap.mem_entries_iff.1 he)
  have hgroups : (Tree.ofHistory h).entries.foldl
      (fun changes e => noteGroups e.1 e.2.file ((known.get? e.1).getD .root) changes) ∅ =
        (∅ : GroupChanges) := by
    refine List.foldlRecOn (motive := (· = ∅)) _ _ rfl fun changes hchanges e he => ?_
    rw [hchanges]
    exact noteGroups_eq_self (hsame _ _ (hmem he)) ∅
  rw [modelChanges, List.append_eq_nil_iff]
  constructor
  · rw [List.filterMap_eq_nil_iff]
    intro e he
    have hnone := corrections_eq_empty (hpublic _ _ (hmem he)) (hsame _ _ (hmem he))
    change (if (corrections e.2.file (known.directory (some e.1))).isEmpty = true then none
      else some _) = none
    rw [hnone]
    rfl
  · exact congrArg (fun changes : GroupChanges =>
      changes.entries.filterMap fun e => groupChange? h e.1 e.2) hgroups

end InLine

end MeetingLedger.Migration.FileInheritance
