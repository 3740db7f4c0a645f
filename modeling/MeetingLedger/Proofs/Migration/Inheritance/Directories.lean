import MeetingLedger.Proofs.Migration.Inheritance.Placement
import MeetingLedger.Proofs.Migration.Inheritance.Records
import MeetingLedger.Proofs.Migration.Run

/-!
# Several directories for one file

Whether the check of the records accepts what the step leaves. Where several files of a meeting
stand for one medium, the step takes the one with the highest id as the directory and the check the
one with the lowest, so the check accepts exactly if both make the same of every file below.
-/

namespace MeetingLedger.Migration.FileInheritance

/-- Every file inherits the same from the lowest of its directories and from the highest. -/
def DirectoriesAgree (h : History) (known : Tree.Known) : Prop :=
  ∀ id file, (id, file) ∈ h.collection fileCollection →
    (Visibility.compute (file.idsAt "access_group_ids") (known.directory (lowestParent? h file))).Same
      (.compute (file.idsAt "access_group_ids")
        (known.directory (parentOf? h (h.collection fileCollection) file)))

theorem HasOneDirectory.directoriesAgree {h : History} (hone : HasOneDirectory h)
    (known : Tree.Known) : DirectoriesAgree h known := by
  intro id file hfile
  rw [hone.parentOf?_eq hfile]
  exact .refl _

theorem directoriesAgree_of_distinct {h : History}
    (hdistinct : ∀ d ∈ h.collection fileCollection, ∀ e ∈ h.collection fileCollection,
      (placement? d.2).isSome → placement? d.2 = placement? e.2 → d.1 = e.1) (known : Tree.Known) :
    DirectoriesAgree h known :=
  (hasOneDirectory_of_distinct hdistinct).directoriesAgree known

def recorded (known : Tree.Known) (e : UInt64 × Instance) : Instance :=
  History.withId e.1 (corrected e.2 (known.directory (some e.1)))

section Recorded

variable (known : Tree.Known) (e : UInt64 × Instance)

theorem get?_recorded {field : String} (hid : field ≠ "id") (hpublic : field ≠ "is_public")
    (hgroups : field ≠ "inherited_access_group_ids") :
    (recorded known e).get? field = e.2.get? field := by
  rw [recorded, History.get?_withId hid, get?_corrected _ _ hpublic hgroups]

theorem boolAt?_recorded :
    (recorded known e).boolAt? "is_public" = some (known.directory (some e.1)).isPublic := by
  rw [← boolAt?_corrected e.2, Instance.boolAt?, recorded, History.get?_withId (by decide)]
  rfl

theorem stored_recorded :
    (Visibility.stored (recorded known e)).Same (known.directory (some e.1)) := by
  refine .trans ?_ (stored_corrected e.2 _)
  rw [Visibility.stored, Visibility.stored, boolAt?_recorded, boolAt?_corrected, Instance.idsAt,
    recorded, History.get?_withId (by decide)]
  exact .refl _

end Recorded

section Snapshot

variable {h h' : History} {known : Tree.Known}
  (happly : h.applyAll (events h known) = ⟨h', none⟩) (index : UInt64)

include happly

theorem instance?_file_toSnapshot (id : UInt64) :
    (h'.toSnapshot index).instance? fileCollection id =
      (h.get? ⟨fileCollection, id⟩).map fun file => recorded known (id, file) := by
  change (h'.toSnapshot index).get? ⟨fileCollection, id⟩ = _
  rw [History.get?_toSnapshot, get?_file_of_applyAll happly, Option.map_map]
  rfl

theorem shows_recorded : Shows (h'.toSnapshot index) h (recorded known) := by
  constructor
  · have hentries := History.entries_toSnapshot h' fileCollection index
    rwa [collection_of_applyAll happly, List.map_map] at hentries
  · intro id
    rw [(shows_toSnapshot h' index).parent,
      get?_of_applyAll happly (by simp [fileCollection]) (by simp)]
  · intro e field hfield
    simp only [placingFields, List.mem_cons, List.not_mem_nil, or_false] at hfield
    exact get?_recorded known e (by rintro rfl; simp at hfield) (by rintro rfl; simp at hfield)
      (by rintro rfl; simp at hfield)

theorem expected_toSnapshot (e : UInt64 × Instance) :
    (Visibility.expected (h'.toSnapshot index) (recorded known e)).Same
      (.compute (e.2.idsAt "access_group_ids") (known.directory (lowestParent? h e.2))) := by
  rw [(shows_recorded happly index).expected, lowestParent?_eq_map]
  refine .compute _ ?_
  cases lowestFile? h e.2 with
  | none => exact .refl _
  | some d => exact stored_recorded known d

theorem problems_recorded_iff (hderived : (Tree.ofHistory h).resolveAll = .ok known)
    {id : UInt64} {file : Instance} (hfile : (id, file) ∈ h.collection fileCollection) :
    Visibility.problems (h'.toSnapshot index) (recorded known (id, file)) = [] ↔
      (Visibility.compute (file.idsAt "access_group_ids")
        (known.directory (lowestParent? h file))).Same
      (.compute (file.idsAt "access_group_ids")
        (known.directory (parentOf? h (h.collection fileCollection) file))) := by
  have hpublic : ((recorded known (id, file)).boolAt? "is_public").isSome := by
    rw [boolAt?_recorded]
    rfl
  have hstored := stored_recorded known (id, file)
  have hexpected := expected_toSnapshot happly index (id, file)
  rw [Visibility.problems_eq_nil_iff hpublic, ← Tree.directory_ofHistory hderived hfile]
  exact ⟨fun h => hexpected.symm.trans (h.symm.trans hstored),
    fun h => hstored.trans (h.symm.trans hexpected.symm)⟩

end Snapshot

variable {h : History} {requests : List ModelChange}

theorem migrateModels_eq_ok (hmigrate : migrateModels h = .ok requests) :
    ∃ known, (Tree.ofHistory h).resolveAll = .ok known ∧
      requests.map ModelChange.toEvent = events h known := by
  rw [migrateModels] at hmigrate
  cases hderived : (Tree.ofHistory h).resolveAll with
  | error e =>
    rw [hderived] at hmigrate
    cases hmigrate
  | ok known =>
    rw [hderived] at hmigrate
    cases hmigrate
    exact ⟨known, rfl, rfl⟩

/-- The changes of the step apply, and the check accepts every file that they leave exactly if no
file depends on which of several files is taken for its directory. -/
theorem no_problems_iff_directoriesAgree (hmigrate : migrateModels h = .ok requests) :
    ∃ known, (Tree.ofHistory h).resolveAll = .ok known ∧
      ∃ h', h.applyAll (requests.map ModelChange.toEvent) = ⟨h', none⟩ ∧ ∀ index,
        (∀ id file, (h'.toSnapshot index).instance? fileCollection id = some file →
          Visibility.problems (h'.toSnapshot index) file = []) ↔ DirectoriesAgree h known := by
  obtain ⟨known, hderived, hevents⟩ := migrateModels_eq_ok hmigrate
  obtain ⟨h', happly⟩ := exists_applyAll_events h known
  refine ⟨known, hderived, h', hevents ▸ happly, fun index => ?_⟩
  constructor
  · intro hproblems id file hfile
    rw [← problems_recorded_iff happly index hderived hfile]
    refine hproblems id _ ?_
    rw [instance?_file_toSnapshot happly, History.mem_collection_iff.1 hfile]
    rfl
  · intro hagree id file hfile
    rw [instance?_file_toSnapshot happly] at hfile
    obtain ⟨i, hi, rfl⟩ := Option.map_eq_some_iff.1 hfile
    have hmem := History.mem_collection_iff.2 hi
    exact (problems_recorded_iff happly index hderived hmem).2 (hagree id i hmem)

def placed (medium : UInt64) (access : List UInt64) : Instance :=
  (((∅ : Instance).insert "meeting_id" (.ofUInt64 1)).insert "mediafile_id"
    (.ofUInt64 medium)).insert "access_group_ids" (.ofIds access)

def oneDirectory : History :=
  (History.empty.applyAll
    [.create ⟨"mediafile", 1⟩ ∅,
     .create ⟨"mediafile", 2⟩ ((∅ : Instance).insert "parent_id" (.ofUInt64 1)),
     .create ⟨fileCollection, 1⟩ (placed 1 [5]),
     .create ⟨fileCollection, 2⟩ (placed 2 [])]).history

theorem no_problems_of_oneDirectory :
    ∃ requests h', migrateModels oneDirectory = .ok requests ∧
      oneDirectory.applyAll (requests.map ModelChange.toEvent) = ⟨h', none⟩ ∧
      ∀ index id file, (h'.toSnapshot index).instance? fileCollection id = some file →
        Visibility.problems (h'.toSnapshot index) file = [] := by
  obtain ⟨requests, hmigrate⟩ := exists_eq_ok (x := migrateModels oneDirectory) (by decide +kernel)
  obtain ⟨known, -, h', happly, hiff⟩ := no_problems_iff_directoriesAgree hmigrate
  have hagree := directoriesAgree_of_distinct (h := oneDirectory) (by decide +kernel) known
  exact ⟨requests, h', hmigrate, happly, fun index => (hiff index).2 hagree⟩

/-- Two files of a meeting stand for the medium of a directory, and only the second one restricts
access. -/
def twoDirectories : History :=
  (History.empty.applyAll
    [.create ⟨"mediafile", 1⟩ ∅,
     .create ⟨"mediafile", 2⟩ ((∅ : Instance).insert "parent_id" (.ofUInt64 1)),
     .create ⟨fileCollection, 1⟩ (placed 1 []),
     .create ⟨fileCollection, 2⟩ (placed 1 [5]),
     .create ⟨fileCollection, 3⟩ (placed 2 [])]).history

theorem twoDirectories_leave_problem :
    ∃ requests h' file, migrateModels twoDirectories = .ok requests ∧
      twoDirectories.applyAll (requests.map ModelChange.toEvent) = ⟨h', none⟩ ∧
      (h'.toSnapshot 4).instance? fileCollection 3 = some file ∧
      Visibility.problems (h'.toSnapshot 4) file ≠ [] := by
  have hproblem : ((migrateModels twoDirectories).toOption.bind fun requests =>
      let attempt := twoDirectories.applyAll (requests.map ModelChange.toEvent)
      let s := attempt.history.toSnapshot 4
      (s.instance? fileCollection 3).map fun file =>
        (attempt.refusal, Visibility.problems s file)) =
      some (none, [.isPublic true false, .groups ∅ (IdSet.ofIds [5])]) := by decide +kernel
  obtain ⟨requests, hmigrate⟩ := exists_eq_ok (x := migrateModels twoDirectories)
    (by decide +kernel)
  rw [hmigrate] at hproblem
  obtain ⟨file, hfile, hfound⟩ := Option.map_eq_some_iff.1 hproblem
  obtain ⟨hrefusal, hproblems⟩ := Prod.mk.inj hfound
  refine ⟨requests, _, file, hmigrate, ?_, hfile, by rw [hproblems]; simp⟩
  rw [← hrefusal]

end MeetingLedger.Migration.FileInheritance
