import MeetingLedger.Proofs.Ledger.Agreement
import MeetingLedger.Proofs.Migration.Inheritance.Directories

/-!
# The lists of groups

A file records the groups that it inherits, and a group lists the files that inherit it. While the
step derives the files it takes down which of them start or stop to inherit a group, and then it builds
the list of each such group once. So a group lists a file after the step exactly if the file is due to
inherit it, or as before if it neither starts nor stops.
-/

namespace MeetingLedger.Migration.FileInheritance

/-- A file records a group exactly if the group lists the file. -/
def GroupsMirrored (h : History) : Prop :=
  ∀ file ∈ h.collection fileCollection, ∀ group ∈ h.collection "group",
    group.1 ∈ file.2.idsAt "inherited_access_group_ids" ↔ file.1 ∈ group.2.idsAt inheritingField

instance (h : History) : Decidable (GroupsMirrored h) :=
  inferInstanceAs (Decidable (∀ file ∈ _, ∀ group ∈ _, _))

def isDerived (f : Fqid) (name : String) : Bool :=
  (f.collection == fileCollection && (name == "is_public" || name == "inherited_access_group_ids")) ||
    (f.collection == "group" && name == inheritingField)

theorem mem_idsAt_iff_recorded {file : Instance} {group : UInt64} :
    group ∈ file.idsAt "inherited_access_group_ids" ↔ (recordedGroups file).contains group = true := by
  rw [recordedGroups, IdSet.contains_ofIds, List.contains_iff_mem]

section Notes

/-- What was taken down of a group and a file: whether the file starts or stops to inherit it. -/
def GroupChanges.note? (changes : GroupChanges) (group id : UInt64) : Option Bool :=
  (changes.get? group).bind (·.get? id)

def noteFor (file : Instance) (due : Visibility) (group : UInt64) : Option Bool :=
  let wanted := (IdSet.ofIds due.groups).contains group
  if (recordedGroups file).contains group = wanted then none else some wanted

variable {changes : GroupChanges} {file : Instance} {due : Visibility}

theorem note?_update (group' id' : UInt64) (inherits : Bool) (group id : UInt64) :
    GroupChanges.note? (changes.update group' ∅ (·.insert id' inherits)) group id =
      if group = group' ∧ id = id' then some inherits else changes.note? group id := by
  rw [GroupChanges.note?, GroupChanges.note?, SortedMap.get?_update]
  by_cases hgroup : group = group'
  · rw [if_pos hgroup, Option.bind_some, SortedMap.get?_insert, hgroup]
    cases changes.get? group' <;> simp
  · simp [hgroup]

theorem note?_foldl_update (groups : List UInt64) (id' : UInt64) (inherits : Bool)
    (group id : UInt64) :
    GroupChanges.note? (groups.foldl (fun changes group' =>
        changes.update group' ∅ (·.insert id' inherits)) changes) group id =
      if group ∈ groups ∧ id = id' then some inherits else changes.note? group id := by
  induction groups generalizing changes with
  | nil => simp
  | cons group' groups ih =>
    rw [List.foldl_cons, ih, note?_update]
    by_cases hid : id = id' <;> by_cases hgroup : group = group' <;> simp [hid, hgroup]

theorem note?_noteGroups (id' group id : UInt64) :
    (noteGroups id' file due changes).note? group id =
      if id' = id then (noteFor file due group).or (changes.note? group id)
      else changes.note? group id := by
  rw [noteGroups]
  simp only [note?_foldl_update, List.mem_filter, SortedMap.mem_keys_iff, noteFor,
    Bool.not_eq_true', eq_comm (a := id')]
  by_cases hid : id = id'
  · cases (IdSet.ofIds due.groups).contains group <;>
      cases (recordedGroups file).contains group <;> simp [hid]
  · simp [hid]

variable {h : History} {known : Tree.Known}

theorem note?_groupChanges {id : UInt64} (hfile : h.get? ⟨fileCollection, id⟩ = some file)
    (group : UInt64) : (groupChanges h known).note? group id =
      noteFor file (known.directory (some id)) group := by
  have hfold : (groupChanges h known).note? group id = (Tree.ofHistory h).entries.foldl
      (fun note e => if e.1 = id then
        (noteFor e.2.file (known.directory (some id)) group).or note else note) none := by
    refine (List.foldl_hom (fun changes : GroupChanges => changes.note? group id)
      fun changes e => ?_).symm
    rw [note?_noteGroups]
    split
    · rename_i hid
      rw [hid]
    · rfl
  rw [hfold, SortedMap.foldl_entries_at id
    (fun (n : Node) note => (noteFor n.file (known.directory (some id)) group).or note),
    Tree.get?_ofHistory (History.mem_collection_iff.2 hfile), Option.elim_some, Option.or_none]

end Notes

section Lists

theorem contains_changeList (files : List UInt64) (change : UInt64 × Bool) (id : UInt64) :
    (changeList files change).contains id = if change.1 = id then change.2 else files.contains id := by
  obtain ⟨id', inherits⟩ := change
  rw [changeList]
  cases inherits with
  | false =>
    by_cases hid : id' = id
    · simp [hid]
    · simp [hid, Ne.symm hid]
  | true =>
    by_cases hmem : id' ∈ files
    · by_cases hid : id' = id
      · subst hid
        simp [hmem]
      · simp [hmem, hid]
    · by_cases hid : id' = id
      · subst hid
        simp [hmem]
      · simp [hmem, hid, Ne.symm hid]

/-- After all changes to a list it holds what was added and of the rest what was not removed. -/
theorem contains_foldl_changeList (changes : SortedMap UInt64 Bool) (files : List UInt64)
    (id : UInt64) :
    (changes.entries.foldl changeList files).contains id =
      (changes.get? id).getD (files.contains id) := by
  have hfold : (changes.entries.foldl changeList files).contains id = changes.entries.foldl
      (fun found change => if change.1 = id then change.2 else found) (files.contains id) :=
    (List.foldl_hom (fun files : List UInt64 => files.contains id)
      fun files change => (contains_changeList files change id).symm).symm
  rw [hfold, SortedMap.foldl_entries_at id (fun inherits _ => inherits)]
  cases changes.get? id <;> rfl

end Lists

section Frame

variable {h h' : History} {known : Tree.Known}

theorem derives_of_mem_events {e : Event} (he : e ∈ events h known) :
    ∃ f fields, e = .update f fields ∧ ∀ name, isDerived f name = false → fields.get? name = none := by
  rw [events_eq_append] at he
  rcases List.mem_append.1 he with hfile | hgroup
  · obtain ⟨⟨id, n⟩, -, hevent⟩ := List.mem_filterMap.1 hfile
    rw [fileEvent?] at hevent
    split at hevent
    · cases hevent
    · cases hevent
      refine ⟨_, _, rfl, fun name hname => ?_⟩
      simp only [isDerived, beq_self_eq_true, Bool.true_and, Bool.or_eq_false_iff,
        beq_eq_false_iff_ne] at hname
      exact get?_corrections_of_ne _ _ hname.1.1 hname.1.2
  · obtain ⟨⟨groupId, changes⟩, -, hevent⟩ := List.mem_filterMap.1 hgroup
    rw [groupEvent?, groupChange?, Option.map_map] at hevent
    obtain ⟨group, -, rfl⟩ := Option.map_eq_some_iff.1 hevent
    refine ⟨_, _, rfl, fun name hname => ?_⟩
    simp only [isDerived, beq_self_eq_true, Bool.true_and, Bool.or_eq_false_iff,
      beq_eq_false_iff_ne] at hname
    exact SortedMap.get?_insert_of_ne _ hname.2 _

/-- The step leaves every model, deleted or not, as it was apart from the derived fields. -/
theorem agreeOff_of_applyAll (happly : h.applyAll (events h known) = ⟨h', none⟩) (f : Fqid) :
    Model.AgreeOff (isDerived f) (h.models.get? f) (h'.models.get? f) := by
  refine History.modelAfter?_invariant (P := Model.AgreeOff (isDerived f) (h.models.get? f))
    (fun e he hfqid m m' hm hnext => ?_) (.refl _) (History.modelAfter?_of_applyAll happly f)
  obtain ⟨f', fields, rfl, hfields⟩ := derives_of_mem_events he
  obtain rfl : f' = f := hfqid
  rcases m with _ | ⟨i, _ | _⟩ <;> cases hnext
  refine hm.trans (.present false fun name hname => ?_)
  rw [Instance.get?_merge_of_none (hfields name hname)]

end Frame

section Groups

variable {h h' : History} {known : Tree.Known}

def relisted (notes : Option (SortedMap UInt64 Bool)) (group : Instance) : Instance :=
  notes.elim group fun notes => group.merge ((∅ : Instance).insert inheritingField
    (.ofIds (notes.entries.foldl changeList (group.idsAt inheritingField))))

theorem contains_idsAt_relisted (changes : GroupChanges) (groupId : UInt64) (group : Instance)
    (id : UInt64) :
    ((relisted (changes.get? groupId) group).idsAt inheritingField).contains id =
      (changes.note? groupId id).getD ((group.idsAt inheritingField).contains id) := by
  rw [GroupChanges.note?]
  cases changes.get? groupId with
  | none => rfl
  | some notes =>
    rw [Option.bind_some, ← contains_foldl_changeList, relisted, Option.elim_some, Instance.idsAt,
      Instance.get?_merge _ _ (by decide), SortedMap.get?_insert_self]
    exact congrArg (·.contains id) (Json.ids_ofIds _)

theorem get?_group_of_applyAll (happly : h.applyAll (events h known) = ⟨h', none⟩)
    (groupId : UInt64) : h'.get? ⟨"group", groupId⟩ =
      (h.get? ⟨"group", groupId⟩).map (relisted ((groupChanges h known).get? groupId)) := by
  have hafter := History.modelAfter?_of_applyAll happly ⟨"group", groupId⟩
  rw [modelAfter?_events, if_neg (by simp [fileCollection]), if_pos rfl] at hafter
  cases hgroup : h.get? ⟨"group", groupId⟩ with
  | none =>
    have hevent (notes : SortedMap UInt64 Bool) : groupEvent? h groupId notes = none := by
      rw [groupEvent?, groupChange?, hgroup]
      rfl
    rw [Option.bind_eq_none_iff.2 fun notes _ => hevent notes, Option.elim_none,
      Option.some_inj] at hafter
    rw [History.get?, ← hafter, ← History.get?, hgroup]
    rfl
  | some group =>
    rw [Option.map_some, History.get?_eq_some_iff]
    have hmodel := History.get?_eq_some_iff.1 hgroup
    cases hnotes : (groupChanges h known).get? groupId with
    | none =>
      rw [hnotes, Option.bind_none, Option.elim_none, Option.some_inj] at hafter
      rw [← hafter, hmodel]
      rfl
    | some notes =>
      rw [hnotes, Option.bind_some, groupEvent?, groupChange?, hgroup, hmodel] at hafter
      exact (Option.some.inj hafter).symm

end Groups

/-- The step keeps the records of files and the lists of groups mirrored, and it leaves every model,
deleted or not, as it was apart from the derived fields. -/
theorem groups_stay_mirrored {h : History} {requests : List ModelChange}
    (hmigrate : migrateModels h = .ok requests) (hmirrored : GroupsMirrored h) :
    ∃ h', h.applyAll (requests.map ModelChange.toEvent) = ⟨h', none⟩ ∧ GroupsMirrored h' ∧
      ∀ f, Model.AgreeOff (isDerived f) (h.models.get? f) (h'.models.get? f) := by
  obtain ⟨known, -, hevents⟩ := migrateModels_eq_ok hmigrate
  obtain ⟨h', happly⟩ := exists_applyAll_events h known
  refine ⟨h', hevents ▸ happly, ?_, agreeOff_of_applyAll happly⟩
  rintro ⟨id, file'⟩ hfile' ⟨groupId, group'⟩ hgroup'
  rw [History.mem_collection_iff, get?_file_of_applyAll happly] at hfile'
  rw [History.mem_collection_iff, get?_group_of_applyAll happly] at hgroup'
  obtain ⟨file, hfile, rfl⟩ := Option.map_eq_some_iff.1 hfile'
  obtain ⟨group, hgroup, rfl⟩ := Option.map_eq_some_iff.1 hgroup'
  have hbefore : (recordedGroups file).contains groupId =
      (group.idsAt inheritingField).contains id := by
    rw [Bool.eq_iff_iff, ← mem_idsAt_iff_recorded, List.contains_iff_mem]
    exact hmirrored _ (History.mem_collection_iff.2 hfile) _ (History.mem_collection_iff.2 hgroup)
  rw [mem_idsAt_iff_recorded, recordedGroups_corrected, ← List.contains_iff_mem,
    contains_idsAt_relisted, note?_groupChanges hfile, noteFor, ← hbefore]
  -- a file that neither starts nor stops to inherit the group is due to inherit it if it did
  split
  · rename_i hsame
    rw [Option.getD_none, hsame]
  · rw [Option.getD_some]

/-- A file that inherits a group although its directory is for another one. -/
def misfiled : History :=
  (History.empty.applyAll
    [.create ⟨"mediafile", 1⟩ ∅,
     .create ⟨"mediafile", 2⟩ ((∅ : Instance).insert "parent_id" (.ofUInt64 1)),
     .create ⟨fileCollection, 1⟩ (placed 1 [5]),
     .create ⟨fileCollection, 2⟩ ((placed 2 []).insert "inherited_access_group_ids" (.ofIds [6])),
     .create ⟨"group", 5⟩ ∅,
     .create ⟨"group", 6⟩ ((∅ : Instance).insert inheritingField (.ofIds [2]))]).history

theorem groups_stay_mirrored_of_misfiled :
    GroupsMirrored misfiled ∧ ∃ requests h', migrateModels misfiled = .ok requests ∧
      misfiled.applyAll (requests.map ModelChange.toEvent) = ⟨h', none⟩ ∧ GroupsMirrored h' ∧
      (h'.collection "group").map (fun group => (group.1, group.2.idsAt inheritingField)) =
        [(5, [1, 2]), (6, [])] := by
  have hmirrored : GroupsMirrored misfiled := by decide +kernel
  have hlists : ((migrateModels misfiled).toOption.map fun requests =>
      ((misfiled.applyAll (requests.map ModelChange.toEvent)).history.collection "group").map
        fun group => (group.1, group.2.idsAt inheritingField)) =
      some [(5, [1, 2]), (6, [])] := by decide +kernel
  obtain ⟨requests, hmigrate⟩ := exists_eq_ok (x := migrateModels misfiled) (by decide +kernel)
  obtain ⟨h', happly, hafter, -⟩ := groups_stay_mirrored hmigrate hmirrored
  rw [hmigrate] at hlists
  refine ⟨hmirrored, requests, h', hmigrate, happly, hafter, ?_⟩
  rw [← Option.some_inj, ← hlists]
  simp [Except.toOption, happly]

end MeetingLedger.Migration.FileInheritance
