import MeetingLedger.Proofs.Dataset.Visibility

/-!
# Visibilities along a chain of directories

The check compares every file with the record of its own directory only. If it accepts all files,
then each record is what follows from the access to all directories above the file, however many
there are.
-/

namespace MeetingLedger.Visibility

variable {s : Snapshot} {file directory : Instance} {chain : List Instance} {id : UInt64}

/-- A file and the directories above it, each the directory of the one before it, up to one that
lies in no directory. -/
inductive Ancestry (s : Snapshot) : Instance → List Instance → Prop
  | root {file : Instance} (parent : parentOf? s file = none) : Ancestry s file [file]
  | child {file directory : Instance} {chain : List Instance}
      (parent : parentOf? s file = some directory) (rest : Ancestry s directory chain) :
      Ancestry s file (file :: chain)

/-- What a file inherits through a chain of directories, the last of which lies in none. -/
def inherited (chain : List Instance) : Visibility :=
  chain.foldr (fun file directory => compute (file.idsAt "access_group_ids") directory) root

/-- Every file says whether it is public, and the check has nothing against its record. -/
def RecordsAgree (s : Snapshot) : Prop :=
  ∀ id file, s.instance? "meeting_mediafile" id = some file →
    (file.boolAt? "is_public").isSome = true ∧ problems s file = []

instance : Decidable (RecordsAgree s) :=
  decidable_of_iff (∀ e ∈ ((s.collection? "meeting_mediafile").map (·.entries)).getD [],
    (e.2.boolAt? "is_public").isSome = true ∧ problems s e.2 = []) <| by
    rw [RecordsAgree]
    cases hfiles : s.collection? "meeting_mediafile" with
    | none => simp [Snapshot.instance?, hfiles]
    | some files => simp [Snapshot.instance?, hfiles, SortedMap.mem_entries_iff]

theorem exists_instance?_of_parentOf? (h : parentOf? s file = some directory) :
    ∃ id, s.instance? "meeting_mediafile" id = some directory := by
  simp only [parentOf?, Option.bind_eq_bind, Option.bind_eq_some_iff] at h
  obtain ⟨meeting, -, medium, -, record, -, parent, -, files, hfiles, hfind⟩ := h
  obtain ⟨⟨id, found⟩, hmem, rfl⟩ := List.mem_map.1 (List.mem_of_find?_eq_some hfind)
  refine ⟨id, ?_⟩
  rw [Snapshot.instance?, hfiles]
  exact SortedMap.mem_entries_iff.1 hmem

namespace RecordsAgree

/-- The record of a file follows from the record of its directory. -/
theorem stored_same (h : RecordsAgree s) (hfile : s.instance? "meeting_mediafile" id = some file) :
    Same (stored file) (expected s file) := by
  obtain ⟨hpublic, hproblems⟩ := h id file hfile
  exact (problems_eq_nil_iff hpublic).1 hproblems

end RecordsAgree

/-- If the check accepts every file, then the record of a file below a chain of directories is what
the file inherits through the whole chain. -/
theorem stored_same_inherited (h : RecordsAgree s)
    (hfile : s.instance? "meeting_mediafile" id = some file) (hchain : Ancestry s file chain) :
    Same (stored file) (inherited chain) := by
  induction hchain generalizing id with
  | root parent =>
    have hlocal := h.stored_same hfile
    rwa [expected, parent] at hlocal
  | child parent rest ih =>
    obtain ⟨id, hdirectory⟩ := exists_instance?_of_parentOf? parent
    have hlocal := h.stored_same hfile
    rw [expected, parent] at hlocal
    exact hlocal.trans (.compute _ (ih hdirectory))

def restricted (medium : UInt64) (access groups : List UInt64) : Instance :=
  .ofList [("meeting_id", .ofUInt64 1), ("mediafile_id", .ofUInt64 medium),
    ("access_group_ids", .ofIds access), ("is_public", .boolean false),
    ("inherited_access_group_ids", .ofIds groups)]

/-- A file in a directory in a directory. -/
def nested : Snapshot :=
  let files : List (UInt64 × Instance) :=
    [(1, restricted 1 [5, 6] [5, 6]), (2, restricted 2 [] [6, 5]), (3, restricted 3 [6, 7] [6])]
  let media : List (UInt64 × Instance) :=
    [(1, ∅), (2, .ofList [("parent_id", .ofUInt64 1)]), (3, .ofList [("parent_id", .ofUInt64 2)])]
  ⟨some 4, .ofList [("mediafile", .ofList media), ("meeting_mediafile", .ofList files)]⟩

theorem stored_same_inherited_of_nested :
    RecordsAgree nested ∧ ∃ file chain, nested.instance? "meeting_mediafile" 3 = some file ∧
      Ancestry nested file chain ∧ inherited chain = ⟨false, [6]⟩ ∧
      Same (stored file) (inherited chain) := by
  have hagree : RecordsAgree nested := by decide +kernel
  have hsome {o : Option Instance} (h : o.isSome = true) : o = some (o.getD ∅) := by
    obtain ⟨i, rfl⟩ := Option.isSome_iff_exists.1 h
    rfl
  let file := (nested.instance? "meeting_mediafile" 3).getD ∅
  let inner := (parentOf? nested file).getD ∅
  let outer := (parentOf? nested inner).getD ∅
  have hfile : nested.instance? "meeting_mediafile" 3 = some file := hsome (by decide +kernel)
  have hchain : Ancestry nested file [file, inner, outer] := by
    refine .child (hsome (by decide +kernel)) (.child (hsome (by decide +kernel)) (.root ?_))
    exact Option.isNone_iff_eq_none.1 (by decide +kernel)
  exact ⟨hagree, file, _, hfile, hchain, by decide +kernel,
    stored_same_inherited hagree hfile hchain⟩

end MeetingLedger.Visibility
