import Mathlib.Tactic.IntervalCases
import MeetingLedger.Proofs.Consistency.Accepted
import MeetingLedger.Proofs.Migration.Inheritance.Cycles
import MeetingLedger.Proofs.Migration.Inheritance.Records
import MeetingLedger.Proofs.Migration.Run

/-!
# The step at work on accepted files

What the step makes of files that the check accepts. The check goes from each file to the record of
its directory, the step from the roots down; on files with one directory each, the step derives what
the check accepted and asks for nothing, unless directories lie in themselves, which the check does
not look for.
-/

namespace MeetingLedger.Migration.FileInheritance

open Schema Consistency

/-- The fields, with their collections, on which visibilities depend and in which they are
recorded. -/
def visibilityFields : List (String × String) :=
  ("mediafile", "parent_id") ::
    (["is_public", "inherited_access_group_ids"] ++ placingFields).map fun field =>
      (fileCollection, field)

def LeavesVisibility (config : Config) : Prop :=
  config.repair = true → ∀ name fields, config.fieldsToRemove.get? name = some fields →
    ∀ field ∈ fields, (name, field) ∉ visibilityFields

section Shown

variable {c : Checker} {s : Snapshot} {h : History} {view : UInt64 × Instance → Instance}

theorem get?_shown (hregistry : c.registry = .standard) (hleaves : LeavesVisibility c.config)
    {name field : String} (hfield : (name, field) ∈ visibilityFields) (i : Instance) :
    (c.shown name i).get? field = i.get? field := by
  have hdefaults : ∀ e ∈ visibilityFields, ((Registry.standard.collections.get? e.1).bind
      fun collection => defaultOf? collection e.2).isNone = true := by decide +kernel
  rw [Checker.shown]
  split
  · rename_i hrepair
    rw [Checker.repaired, hregistry]
    cases hcollection : Registry.standard.collections.get? name with
    | none => rfl
    | some collection =>
      have hdefault := hdefaults (name, field) hfield
      rw [hcollection, Option.bind_some, Option.isNone_iff_eq_none] at hdefault
      have hkept : field ∉ (c.config.fieldsToRemove.get? name).getD [] := by
        cases hremove : c.config.fieldsToRemove.get? name with
        | none => simp
        | some fields => exact fun hmem => hleaves hrepair name fields hremove field hmem hfield
      simp only [get?_repairInstance, if_neg hkept, hdefault, Option.or_none]
  · rfl

/-- A repair that leaves these fields alone shows the same files. -/
theorem Shows.run (hs : Shows s h view) (hregistry : c.registry = .standard)
    (hleaves : LeavesVisibility c.config) :
    Shows (c.run s).1 h fun e => c.shown fileCollection (view e) := by
  constructor
  · have hfiles := congrArg (List.map fun e => (e.1, c.shown fileCollection e.2)) hs.files
    rw [List.map_map] at hfiles
    refine Eq.trans ?_ hfiles
    rw [Snapshot.collection?, Snapshot.collection?, Checker.get?_run]
    cases s.collections.get? fileCollection <;> rfl
  · intro id
    rw [Checker.instance?_run, ← hs.parent, Option.bind_map]
    exact congrArg _ (funext fun i => get?_shown hregistry hleaves (by decide) i)
  · intro e field hfield
    refine (get?_shown hregistry hleaves ?_ _).trans (hs.kept e field hfield)
    exact List.mem_cons_of_mem _ (List.mem_map_of_mem (List.mem_append_right _ hfield))

end Shown

/-- Every file of a history says whether it is public and records what follows from the record of its
lowest directory. -/
def FilesAgree (h : History) : Prop :=
  ∀ id file, (id, file) ∈ h.collection fileCollection →
    (file.boolAt? "is_public").isSome = true ∧
      (Visibility.stored file).Same (.compute (file.idsAt "access_group_ids")
        (((lowestFile? h file).map fun e => Visibility.stored e.2).getD .root))

theorem filesAgree_of_accepted {c : Checker} {h : History} {index : UInt64}
    (hregistry : c.registry = .standard) (hmode : c.config.mode = .all)
    (hleaves : LeavesVisibility c.config) (haccepted : (c.run (h.toSnapshot index)).2 = []) :
    FilesAgree h := by
  have hrecords : Visibility.RecordsAgree (c.run (h.toSnapshot index)).1 :=
    Checker.recordsAgree_of_accepted hregistry hmode haccepted
  have hshows := (shows_toSnapshot h index).run hregistry hleaves
  have hview {field : String} (hfield : (fileCollection, field) ∈ visibilityFields)
      (hid : field ≠ "id") (e : UInt64 × Instance) :
      (c.shown fileCollection (History.withId e.1 e.2)).get? field = e.2.get? field :=
    (get?_shown hregistry hleaves hfield _).trans (History.get?_withId hid)
  have hpublic (e : UInt64 × Instance) : (c.shown fileCollection (History.withId e.1 e.2)).boolAt?
      "is_public" = e.2.boolAt? "is_public" := by
    rw [Instance.boolAt?, Instance.boolAt?, hview (by decide) (by decide)]
  have hstored (e : UInt64 × Instance) :
      Visibility.stored (c.shown fileCollection (History.withId e.1 e.2)) =
        Visibility.stored e.2 := by
    rw [Visibility.stored, Visibility.stored, hpublic, Instance.idsAt, Instance.idsAt,
      hview (by decide) (by decide)]
  intro id file hfile
  have hinstance := hshows.instance?_iff.2 ⟨file, hfile, rfl⟩
  have hsame := hrecords.stored_same hinstance
  rw [hshows.expected, hstored] at hsame
  simp only [hstored] at hsame
  exact ⟨hpublic (id, file) ▸ (hrecords id _ hinstance).1, hsame⟩

section Derived

variable {h : History} {known : Tree.Known} {id : UInt64} {file : Instance}

/-- Along a chain of directories the records of files that agree are what is derived. -/
theorem stored_same_derived (hagree : FilesAgree h) (hone : HasOneDirectory h)
    (hok : (Tree.ofHistory h).resolveAll = .ok known)
    (hgrounded : (Tree.ofHistory h).Grounded id)
    (hfile : (id, file) ∈ h.collection fileCollection) :
    (Visibility.stored file).Same (known.directory (some id)) := by
  induction hgrounded generalizing file with
  | @root id parent =>
    have hsame := (hagree id file hfile).2
    rw [Tree.parent?_ofHistory hfile] at parent
    have hnone : lowestFile? h file = none := by
      rwa [hone.parentOf?_eq hfile, lowestParent?_eq_map, Option.map_eq_none_iff] at parent
    rw [hnone] at hsame
    rw [Tree.directory_ofHistory hok hfile, parent]
    exact hsame
  | @child id directory parent rest ih =>
    have hsame := (hagree id file hfile).2
    rw [Tree.LiesIn, Tree.parent?_ofHistory hfile] at parent
    have hlowest := parent
    rw [hone.parentOf?_eq hfile, lowestParent?_eq_map] at hlowest
    obtain ⟨⟨d, i⟩, hfound, rfl⟩ := Option.map_eq_some_iff.1 hlowest
    obtain ⟨place, -, hfind⟩ := Option.bind_eq_some_iff.1 hfound
    rw [hfound] at hsame
    rw [Tree.directory_ofHistory hok hfile, parent]
    exact hsame.trans (.compute _ (ih (List.mem_of_find?_eq_some hfind)))

end Derived

/-- If the check of a whole dataset under the standard registry accepts the files of a history, and
no file has several directories to choose from, then the step asks for nothing, or it reports a
directory that lies in itself, if there is one. -/
theorem accepted_needs_no_changes {c : Checker} {h : History} {index : UInt64}
    (hregistry : c.registry = .standard) (hmode : c.config.mode = .all)
    (hleaves : LeavesVisibility c.config) (haccepted : (c.run (h.toSnapshot index)).2 = [])
    (hone : HasOneDirectory h) :
    ((¬ ∃ id, (Tree.ofHistory h).OnCycle id) → migrateModels h = .ok []) ∧
      ((∃ id, (Tree.ofHistory h).OnCycle id) → ∃ id, (Tree.ofHistory h).OnCycle id ∧
        migrateModels h = .error (.invalid ⟨fileCollection, id⟩ .cycle)) := by
  have hagree := filesAgree_of_accepted hregistry hmode hleaves haccepted
  have hclosed := Tree.isClosed_ofHistory h
  rcases Tree.resolveAll_cases hclosed with ⟨known, hok, hgrounded⟩ | ⟨id, hcycle, herror⟩
  · have hacyclic := (Tree.resolveAll_isOk_iff hclosed).1 ⟨known, hok⟩
    refine ⟨fun _ => ?_, fun hcycle => absurd hcycle hacyclic⟩
    have hsame := fun id file (hfile : (id, file) ∈ h.collection fileCollection) =>
      stored_same_derived hagree hone hok (hgrounded id (Tree.mem_keys_ofHistory hfile)) hfile
    have hnone := modelChanges_eq_nil (fun id file hfile => (hagree id file hfile).1) hsame
    simp only [migrateModels, hok, bind, Except.bind, hnone]
  · refine ⟨fun hacyclic => absurd ⟨id, hcycle⟩ hacyclic, fun _ => ⟨id, hcycle, ?_⟩⟩
    simp only [migrateModels, herror, bind, Except.bind]

/-- The smallest dataset with a meeting, before some files with media of the same ids are added. -/
def assembly (files : List UInt64) : List Event :=
  [.create ⟨"organization", 1⟩ (.ofList [("theme_id", .ofUInt64 1), ("theme_ids", .ofIds [1]),
      ("committee_ids", .ofIds [1])]),
    .create ⟨"theme", 1⟩ (.ofList [("name", .string "Default"), ("organization_id", .ofUInt64 1),
      ("theme_for_organization_id", .ofUInt64 1), ("accent_500", .string "#0000ff"),
      ("primary_500", .string "#000000"), ("warn_500", .string "#ff0000")]),
    .create ⟨"committee", 1⟩ (.ofList [("name", .string "Board"),
      ("organization_id", .ofUInt64 1), ("meeting_ids", .ofIds [1])]),
    .create ⟨"meeting", 1⟩ (.ofList [("name", .string "Assembly"), ("language", .string "en"),
      ("committee_id", .ofUInt64 1), ("default_group_id", .ofUInt64 1), ("group_ids", .ofIds [1]),
      ("mediafile_ids", .ofIds files), ("meeting_mediafile_ids", .ofIds files)]),
    .create ⟨"group", 1⟩ (.ofList [("name", .string "Delegates"), ("meeting_id", .ofUInt64 1),
      ("default_group_for_meeting_id", .ofUInt64 1)])]

/-- A medium of this meeting and the file for it, which is public. -/
def publicMedium (id : UInt64) (fields : List (String × Json)) : List Event :=
  [.create ⟨"mediafile", id⟩ (.ofList ([("owner_id", .string "meeting/1"),
      ("meeting_mediafile_ids", .ofIds [id])] ++ fields)),
    .create ⟨fileCollection, id⟩ (.ofList [("meeting_id", .ofUInt64 1),
      ("mediafile_id", .ofUInt64 id), ("is_public", .boolean true)])]

def oneNested : History :=
  (History.empty.applyAll (assembly [1, 2] ++ publicMedium 1 [("child_ids", .ofIds [2])] ++
    publicMedium 2 [("parent_id", .ofUInt64 1)])).history

def selfNested : History :=
  (History.empty.applyAll (assembly [1] ++
    publicMedium 1 [("parent_id", .ofUInt64 1), ("child_ids", .ofIds [1])])).history

theorem accepts_nested :
    ((⟨.standard, { mode := .all }, 4⟩ : Checker).run (oneNested.toSnapshot 4)).2 = [] ∧
      ((⟨.standard, { mode := .all }, 4⟩ : Checker).run (selfNested.toSnapshot 4)).2 = [] := by
  constructor
  · refine Checker.findings_eq_nil_of_places (n := 7) rfl (by decide +kernel) fun place hplace => ?_
    interval_cases place <;> exact List.isEmpty_iff.1 (by decide +kernel)
  · refine Checker.findings_eq_nil_of_places (n := 7) rfl (by decide +kernel) fun place hplace => ?_
    interval_cases place <;> exact List.isEmpty_iff.1 (by decide +kernel)

theorem accepted_needs_no_changes_of_oneNested :
    let c : Checker := ⟨.standard, { mode := .all }, 4⟩
    (c.run (oneNested.toSnapshot 4)).2 = [] ∧ migrateModels oneNested = .ok [] := by
  intro c
  have hleaves : LeavesVisibility c.config := fun hrepair => absurd hrepair (by decide)
  have hacyclic : ¬ ∃ id, (Tree.ofHistory oneNested).OnCycle id :=
    (Tree.resolveAll_isOk_iff (Tree.isClosed_ofHistory _)).1 (exists_eq_ok (by decide +kernel))
  exact ⟨accepts_nested.1,
    (accepted_needs_no_changes rfl rfl hleaves accepts_nested.1 (by decide +kernel)).1 hacyclic⟩

/-- The check accepts the directory in itself, the step reports it. -/
theorem selfNested_is_accepted_and_reported :
    ((⟨.standard, { mode := .all }, 4⟩ : Checker).run (selfNested.toSnapshot 4)).2 = [] ∧
      migrateModels selfNested = .error (.invalid ⟨fileCollection, 1⟩ .cycle) := by
  refine ⟨accepts_nested.2, ?_⟩
  have hreported : (match migrateModels selfNested with
      | .error (.invalid f .cycle) => some f
      | _ => none) = some ⟨fileCollection, 1⟩ := by decide +kernel
  split at hreported
  · rename_i f herror
    rw [herror, Option.some.inj hreported]
  · cases hreported

end MeetingLedger.Migration.FileInheritance
