import MeetingLedger.Proofs.Migration.Inheritance.Groups

/-!
# The second pass

A file is placed and given access by fields that the step never writes. So after the first pass the
files lie in the same directories as before, a second pass derives the same visibilities from them, and
it finds each of them recorded.
-/

namespace MeetingLedger.Migration.FileInheritance

namespace Tree

/-- The files of both trees have the same ids, the same access and the same directories. -/
structure Alike (t t' : Tree) : Prop where
  keys : t'.keys = t.keys
  access : ∀ id, t'.access id = t.access id
  parent : ∀ id, t'.parent? id = t.parent? id

namespace Alike

variable {t t' : Tree}

theorem resolve (h : t.Alike t') (known : Known) (unvisited : List UInt64) (id : UInt64) :
    t'.resolve known unvisited id = t.resolve known unvisited id := by
  fun_induction t.resolve known unvisited id with
  | case1 unvisited id v hknown => rw [Tree.resolve, hknown]
  | case2 unvisited id hknown hvisits _ hparent =>
    rw [Tree.resolve, hknown]
    simp only [dif_pos hvisits, h.parent, hparent, h.access]
    rfl
  | case3 unvisited id hknown hvisits _ parent hparent ih =>
    rw [Tree.resolve, hknown]
    simp only [dif_pos hvisits, h.parent, hparent, h.access, ih]
    rfl
  | case4 unvisited id hknown hvisits =>
    rw [Tree.resolve, hknown]
    simp only [dif_neg hvisits]

theorem resolveAll (h : t.Alike t') : t'.resolveAll = t.resolveAll := by
  rw [Tree.resolveAll, Tree.resolveAll, h.keys]
  simp only [h.resolve]

end Alike

/-- The tree with the derived fields of every file brought in line. -/
def corrected (t : Tree) (known : Known) : Tree :=
  t.mapValues fun id n => ⟨FileInheritance.corrected n.file (known.directory (some id)), n.parent⟩

theorem get?_corrected (t : Tree) (known : Known) (id : UInt64) :
    (t.corrected known).get? id = (t.get? id).map fun n =>
      ⟨FileInheritance.corrected n.file (known.directory (some id)), n.parent⟩ :=
  SortedMap.get?_mapValues ..

theorem alike_corrected (t : Tree) (known : Known) : t.Alike (t.corrected known) where
  keys := by simp [corrected, SortedMap.keys, SortedMap.mapValues]
  access id := by
    have haccess (n : Node) : (FileInheritance.corrected n.file
        (known.directory (some id))).idsAt "access_group_ids" = n.file.idsAt "access_group_ids" := by
      rw [Instance.idsAt, Instance.idsAt,
        FileInheritance.get?_corrected _ _ (by decide) (by decide)]
    rw [access, access, get?_corrected, Option.map_map]
    simp only [Function.comp_def, haccess]
  parent id := by
    rw [parent?, parent?, get?_corrected, Option.bind_map]
    rfl

end Tree

section Applied

variable {h h' : History} {known : Tree.Known}

theorem placement?_corrected (file : Instance) (due : Visibility) :
    placement? (corrected file due) = placement? file := by
  rw [placement?, placement?, Instance.idAt?, Instance.idAt?, Instance.idAt?, Instance.idAt?,
    get?_corrected _ _ (by decide) (by decide), get?_corrected _ _ (by decide) (by decide)]

theorem fileAt?_corrected (files : List (UInt64 × Instance)) (due : UInt64 → Visibility)
    (place : UInt64 × UInt64) :
    fileAt? (files.map fun e => (e.1, corrected e.2 (due e.1))) place = fileAt? files place := by
  rw [fileAt?, fileAt?, ← List.map_reverse, List.find?_map, Option.map_map]
  simp only [Function.comp_def, placement?_corrected]

variable (happly : h.applyAll (events h known) = ⟨h', none⟩)

include happly

theorem directoryPlace?_of_applyAll (file : Instance) (due : Visibility) :
    directoryPlace? h' (corrected file due) = directoryPlace? h file := by
  have hmedium (id : UInt64) : h'.get? ⟨"mediafile", id⟩ = h.get? ⟨"mediafile", id⟩ :=
    get?_of_applyAll happly (by simp [fileCollection]) (by simp)
  simp only [directoryPlace?, placement?_corrected, hmedium]

/-- Every file lies where it lay. -/
theorem parentOf?_of_applyAll (file : Instance) (due : Visibility) :
    parentOf? h' (h'.collection fileCollection) (corrected file due) =
      parentOf? h (h.collection fileCollection) file := by
  rw [parentOf?_eq_bind, parentOf?_eq_bind, directoryPlace?_of_applyAll happly,
    collection_of_applyAll happly]
  congr 1
  funext place
  exact fileAt?_corrected _ (fun id => known.directory (some id)) place

theorem ofHistory_of_applyAll : Tree.ofHistory h' = (Tree.ofHistory h).corrected known := by
  refine SortedMap.ext_get? fun id => ?_
  rw [Tree.get?_corrected, Tree.get?_ofHistory_eq_map, Tree.get?_ofHistory_eq_map,
    get?_file_of_applyAll happly, Option.map_map, Option.map_map]
  simp only [Function.comp_def, parentOf?_of_applyAll happly]

end Applied

/-- The step converges in one pass. What it asks for can be applied, and after that it asks for
nothing. -/
theorem second_pass_asks_nothing {h : History} {requests : List ModelChange}
    (hmigrate : migrateModels h = .ok requests) :
    ∃ h', h.applyAll (requests.map ModelChange.toEvent) = ⟨h', none⟩ ∧ migrateModels h' = .ok [] := by
  obtain ⟨known, hderived, hevents⟩ := migrateModels_eq_ok hmigrate
  obtain ⟨h', happly⟩ := exists_applyAll_events h known
  have hagain : (Tree.ofHistory h').resolveAll = .ok known := by
    rw [ofHistory_of_applyAll happly, ← hderived]
    exact (Tree.alike_corrected _ known).resolveAll
  have hfile {id : UInt64} {file' : Instance} (hmem : (id, file') ∈ h'.collection fileCollection) :
      ∃ file, corrected file (known.directory (some id)) = file' := by
    rw [History.mem_collection_iff, get?_file_of_applyAll happly] at hmem
    obtain ⟨file, -, hcorrected⟩ := Option.map_eq_some_iff.1 hmem
    exact ⟨file, hcorrected⟩
  have hnone : modelChanges h' (Tree.ofHistory h') known = [] := by
    apply modelChanges_eq_nil
    · intro id file' hmem
      obtain ⟨file, rfl⟩ := hfile hmem
      rw [boolAt?_corrected]
      rfl
    · intro id file' hmem
      obtain ⟨file, rfl⟩ := hfile hmem
      exact stored_corrected file _
  refine ⟨h', hevents ▸ happly, ?_⟩
  rw [migrateModels, hagain, ok_bind, hnone]

theorem second_pass_asks_nothing_of_misfiled :
    ∃ requests h', migrateModels misfiled = .ok requests ∧ requests.length = 4 ∧
      misfiled.applyAll (requests.map ModelChange.toEvent) = ⟨h', none⟩ ∧
      migrateModels h' = .ok [] := by
  have hcount : (migrateModels misfiled).toOption.map List.length = some 4 := by decide +kernel
  obtain ⟨requests, hmigrate⟩ := exists_eq_ok (x := migrateModels misfiled) (by decide +kernel)
  obtain ⟨h', happly, hagain⟩ := second_pass_asks_nothing hmigrate
  rw [hmigrate] at hcount
  exact ⟨requests, h', hmigrate, Option.some.inj hcount, happly, hagain⟩

end MeetingLedger.Migration.FileInheritance
