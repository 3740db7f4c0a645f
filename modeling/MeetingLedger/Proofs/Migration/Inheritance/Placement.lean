import MeetingLedger.Migration.FileInheritance
import MeetingLedger.Proofs.Ledger.Collection

/-!
# The directory of a file

The step and the check of the records look at the same place, the meeting of the file and the parent
of its medium, but of several files there the step takes the one with the highest id and the check
the one with the lowest.
-/

namespace MeetingLedger.Migration.FileInheritance

/-- Where the directory of a file has to be: the meeting of the file and the parent of its medium. -/
def directoryPlace? (h : History) (file : Instance) : Option (UInt64 × UInt64) := do
  let (meeting, medium) ← placement? file
  let parent ← (← h.get? ⟨"mediafile", medium⟩).idAt? "parent_id"
  some (meeting, parent)

/-- The file with the lowest id that acts as the directory of another one. -/
def lowestParent? (h : History) (file : Instance) : Option UInt64 := do
  let place ← directoryPlace? h file
  let e ← (h.collection fileCollection).find? fun e => placement? e.2 == some place
  some e.1

def lowestFile? (h : History) (file : Instance) : Option (UInt64 × Instance) :=
  (directoryPlace? h file).bind fun place =>
    (h.collection fileCollection).find? fun e => placement? e.2 == some place

/-- No file has several directories to choose from. -/
def HasOneDirectory (h : History) : Prop :=
  ∀ file ∈ h.collection fileCollection, ∀ d ∈ h.collection fileCollection,
    ∀ e ∈ h.collection fileCollection, (directoryPlace? h file.2).isSome = true →
      placement? d.2 = directoryPlace? h file.2 → placement? e.2 = directoryPlace? h file.2 →
        d.1 = e.1

instance (h : History) : Decidable (HasOneDirectory h) := by
  unfold HasOneDirectory
  infer_instance

theorem parentOf?_eq_bind (h : History) (files : List (UInt64 × Instance)) (file : Instance) :
    parentOf? h files file = (directoryPlace? h file).bind (fileAt? files) := by
  rw [parentOf?, directoryPlace?]
  cases placement? file with
  | none => rfl
  | some place =>
    obtain ⟨meeting, medium⟩ := place
    cases hmedium : h.get? ⟨"mediafile", medium⟩ with
    | none => simp [hmedium]
    | some i => cases hparent : i.idAt? "parent_id" <;> simp [hmedium, hparent]

theorem lowestParent?_eq_map (h : History) (file : Instance) :
    lowestParent? h file = (lowestFile? h file).map (·.1) := by
  rw [lowestParent?, lowestFile?]
  cases directoryPlace? h file with
  | none => rfl
  | some place =>
    simp only [Option.bind_eq_bind, Option.bind_some]
    cases (h.collection fileCollection).find? fun e => placement? e.2 == some place <;> rfl

theorem find?_reverse_of_unique {α : Type} {p : α → Bool} {es : List α}
    (hunique : ∀ d ∈ es, ∀ e ∈ es, p d = true → p e = true → d = e) :
    es.reverse.find? p = es.find? p := by
  cases hfirst : es.find? p with
  | none =>
    rw [List.find?_eq_none] at hfirst ⊢
    exact fun e he => hfirst e (List.mem_reverse.1 he)
  | some d =>
    cases hlast : es.reverse.find? p with
    | none =>
      exact absurd (List.find?_some hfirst)
        (List.find?_eq_none.1 hlast d (List.mem_reverse.2 (List.mem_of_find?_eq_some hfirst)))
    | some e =>
      rw [hunique e (List.mem_reverse.1 (List.mem_of_find?_eq_some hlast)) d
        (List.mem_of_find?_eq_some hfirst) (List.find?_some hlast) (List.find?_some hfirst)]

theorem exists_of_parentOf? {h : History} {file : Instance} {id : UInt64}
    (hparent : parentOf? h (h.collection fileCollection) file = some id) :
    ∃ directory, (id, directory) ∈ h.collection fileCollection := by
  rw [parentOf?_eq_bind, Option.bind_eq_some_iff] at hparent
  obtain ⟨place, -, hplace⟩ := hparent
  obtain ⟨⟨id, directory⟩, hfind, rfl⟩ := Option.map_eq_some_iff.1 hplace
  exact ⟨directory, List.mem_reverse.1 (List.mem_of_find?_eq_some hfind)⟩

/-- Without a choice the highest directory is the lowest one. -/
theorem HasOneDirectory.parentOf?_eq {h : History} (hone : HasOneDirectory h) {id : UInt64}
    {file : Instance} (hfile : (id, file) ∈ h.collection fileCollection) :
    parentOf? h (h.collection fileCollection) file = lowestParent? h file := by
  rw [parentOf?_eq_bind, lowestParent?_eq_map, lowestFile?]
  cases hplace : directoryPlace? h file with
  | none => rfl
  | some place =>
    rw [Option.bind_some, Option.bind_some, fileAt?, find?_reverse_of_unique]
    intro d hd e he hd' he'
    rw [beq_iff_eq, ← hplace] at hd' he'
    have hid := hone (id, file) hfile d hd e he (by simp [hplace]) hd' he'
    refine Prod.ext hid (Option.some.inj ?_)
    rw [← History.mem_collection_iff.1 hd, ← History.mem_collection_iff.1 he, hid]

theorem hasOneDirectory_of_distinct {h : History}
    (hdistinct : ∀ d ∈ h.collection fileCollection, ∀ e ∈ h.collection fileCollection,
      (placement? d.2).isSome → placement? d.2 = placement? e.2 → d.1 = e.1) :
    HasOneDirectory h := by
  intro file _ d hd e he hsome hplace hplace'
  exact hdistinct d hd e he (by rwa [hplace]) (hplace.trans hplace'.symm)

/-- The check looks for the directory of a file where the step does. -/
theorem parentOf?_snapshot (s : Snapshot) (file : Instance) :
    Visibility.parentOf? s file = (placement? file).bind fun place =>
      ((s.instance? "mediafile" place.2).bind (·.idAt? "parent_id")).bind fun parent =>
        (s.collection? fileCollection).bind
          (·.values.find? fun d => placement? d == some (place.1, parent)) := by
  have hat (meeting medium : UInt64) : (fun d : Instance =>
      d.idAt? "meeting_id" == some meeting && d.idAt? "mediafile_id" == some medium) =
      fun d => placement? d == some (meeting, medium) := by
    funext d
    rw [placement?, Bool.eq_iff_iff]
    cases d.idAt? "meeting_id" <;> cases d.idAt? "mediafile_id" <;> simp
  simp only [Visibility.parentOf?, hat, placement?, Option.bind_eq_bind, Option.bind_assoc,
    Option.bind_some]
  rfl

/-- The fields of a file on which its directory and the access to it depend. -/
def placingFields : List String := ["meeting_id", "mediafile_id", "access_group_ids"]

/-- A snapshot shows every file of a history in a view that leaves these fields alone. -/
structure Shows (s : Snapshot) (h : History) (view : UInt64 × Instance → Instance) : Prop where
  files : ((s.collection? fileCollection).map (·.entries)).getD [] =
    (h.collection fileCollection).map fun e => (e.1, view e)
  parent : ∀ id, (s.instance? "mediafile" id).bind (·.get? "parent_id") =
    (h.get? ⟨"mediafile", id⟩).bind (·.get? "parent_id")
  kept : ∀ e, ∀ field ∈ placingFields, (view e).get? field = e.2.get? field

theorem shows_toSnapshot (h : History) (index : UInt64) :
    Shows (h.toSnapshot index) h fun e => History.withId e.1 e.2 := by
  constructor
  · exact History.entries_toSnapshot h fileCollection index
  · intro id
    change ((h.toSnapshot index).get? ⟨"mediafile", id⟩).bind _ = _
    rw [History.get?_toSnapshot]
    cases h.get? ⟨"mediafile", id⟩ with
    | none => rfl
    | some medium => exact History.get?_withId (by decide)
  · intro e field hfield
    refine History.get?_withId ?_
    rintro rfl
    exact absurd hfield (by decide)

namespace Shows

variable {s : Snapshot} {h : History} {view : UInt64 × Instance → Instance}

theorem placement (hs : Shows s h view) (e : UInt64 × Instance) :
    placement? (view e) = placement? e.2 := by
  rw [placement?, placement?, Instance.idAt?, Instance.idAt?, Instance.idAt?, Instance.idAt?,
    hs.kept e _ (by decide), hs.kept e _ (by decide)]

theorem access (hs : Shows s h view) (e : UInt64 × Instance) :
    (view e).idsAt "access_group_ids" = e.2.idsAt "access_group_ids" := by
  rw [Instance.idsAt, Instance.idsAt, hs.kept e _ (by decide)]

theorem parent_medium (hs : Shows s h view) (id : UInt64) :
    (s.instance? "mediafile" id).bind (·.idAt? "parent_id") =
      (h.get? ⟨"mediafile", id⟩).bind (·.idAt? "parent_id") := by
  have hparent := congrArg (Option.bind · Json.id?) (hs.parent id)
  rwa [Option.bind_assoc, Option.bind_assoc] at hparent

theorem instance?_iff (hs : Shows s h view) {id : UInt64} {i : Instance} :
    s.instance? fileCollection id = some i ↔
      ∃ file, (id, file) ∈ h.collection fileCollection ∧ view (id, file) = i := by
  have hmem : s.instance? fileCollection id = some i ↔
      (id, i) ∈ ((s.collection? fileCollection).map (·.entries)).getD [] := by
    rw [Snapshot.instance?]
    cases s.collection? fileCollection with
    | none => simp
    | some files => exact SortedMap.mem_entries_iff.symm
  rw [hmem, hs.files, List.mem_map]
  constructor
  · rintro ⟨⟨id, file⟩, hfile, heq⟩
    cases heq
    exact ⟨file, hfile, rfl⟩
  · rintro ⟨file, hfile, rfl⟩
    exact ⟨(id, file), hfile, rfl⟩

theorem find?_files (hs : Shows s h view) (p : Instance → Bool) :
    (s.collection? fileCollection).bind (·.values.find? p) =
      ((h.collection fileCollection).find? (p ∘ view)).map view := by
  have hvalues : ((s.collection? fileCollection).map (·.values)).getD [] =
      (h.collection fileCollection).map view := by
    have hentries := congrArg (List.map (·.2)) hs.files
    rw [List.map_map] at hentries
    change _ = (h.collection fileCollection).map view at hentries
    rw [← hentries]
    cases s.collection? fileCollection <;> rfl
  rw [← List.find?_map, ← hvalues]
  cases s.collection? fileCollection <;> rfl

theorem parentOf? (hs : Shows s h view) (e : UInt64 × Instance) :
    Visibility.parentOf? s (view e) = (lowestFile? h e.2).map view := by
  simp only [parentOf?_snapshot, hs.placement, hs.parent_medium, hs.find?_files, lowestFile?,
    directoryPlace?, Option.bind_eq_bind, Option.bind_assoc, Option.bind_some, Option.map_bind,
    Function.comp_def]

/-- What follows for a file from the record of the lowest directory. -/
theorem expected (hs : Shows s h view) (e : UInt64 × Instance) :
    Visibility.expected s (view e) = .compute (e.2.idsAt "access_group_ids")
      (((lowestFile? h e.2).map fun d => Visibility.stored (view d)).getD .root) := by
  rw [Visibility.expected, hs.access, hs.parentOf? e, Option.map_map]
  rfl

end Shows

end MeetingLedger.Migration.FileInheritance
