import MeetingLedger.Proofs.Container.Lookup
import MeetingLedger.Storage.Disk

/-!
# Reading, writing and locking

A path that leads to a place still leads there when entries are added or files are written, what was
written to a file is what is read from it, and a lock that was taken and given back can be taken again.
-/

namespace MeetingLedger.Storage

namespace Disk

variable {d d' d'' : Disk} {place place' : List String} {steps : List String} {path : String}

theorem entry?_put (hplace : place ≠ []) (e : Entry) :
    Disk.entry? (d.put place e) place' = if place' = place then some e else d.entry? place' := by
  unfold Disk.entry?
  cases place' with
  | nil => simp [Ne.symm hplace]
  | cons step rest => exact SortedMap.get?_insert ..

theorem ne_nil_of_ne_directory (h : d.entry? place ≠ some .directory) : place ≠ [] := by
  rintro rfl
  exact h rfl

/-- The same guards and the same start of paths, all directories still there, and all files, whatever
they hold. -/
structure KeepsKinds (d d' : Disk) : Prop where
  guards : d'.guards = d.guards
  workingDirectory : d'.workingDirectory = d.workingDirectory
  directory : ∀ place, d.entry? place = some .directory → d'.entry? place = some .directory
  file : ∀ place content, d.entry? place = some (.file content) →
    ∃ content', d'.entry? place = some (.file content')

/-- Everything is still as it was, though there may be more. -/
structure Grows (d d' : Disk) : Prop extends KeepsKinds d d' where
  entry : ∀ place e, d.entry? place = some e → d'.entry? place = some e

theorem Grows.ofEntry (hguards : d'.guards = d.guards)
    (horigin : d'.workingDirectory = d.workingDirectory)
    (hentry : ∀ place e, d.entry? place = some e → d'.entry? place = some e) : Grows d d' :=
  ⟨⟨hguards, horigin, fun place => hentry place _, fun place _ h => ⟨_, hentry place _ h⟩⟩, hentry⟩

theorem KeepsKinds.trans (h : KeepsKinds d d') (h' : KeepsKinds d' d'') : KeepsKinds d d'' where
  guards := h'.guards.trans h.guards
  workingDirectory := h'.workingDirectory.trans h.workingDirectory
  directory place hplace := h'.directory place (h.directory place hplace)
  file place content hplace := by
    obtain ⟨content', hkept⟩ := h.file place content hplace
    exact h'.file place content' hkept

theorem Grows.refl (d : Disk) : Grows d d := .ofEntry rfl rfl fun _ _ h => h

theorem Grows.trans (h : Grows d d') (h' : Grows d' d'') : Grows d d'' :=
  ⟨h.toKeepsKinds.trans h'.toKeepsKinds, fun place e he => h'.entry place e (h.entry place e he)⟩

theorem grows_put (hnone : d.entry? place = none) (e : Entry) : Grows d (d.put place e) := by
  have hplace : place ≠ [] := by
    rintro rfl
    cases hnone
  refine .ofEntry rfl rfl fun q e' hq => ?_
  have hne : q ≠ place := by
    rintro rfl
    rw [hnone] at hq
    cases hq
  rw [entry?_put hplace, if_neg hne, hq]

theorem keepsKinds_put (hplace : d.entry? place ≠ some .directory) (content : String) :
    KeepsKinds d (d.put place (.file content)) where
  guards := rfl
  workingDirectory := rfl
  directory q hq := by
    have hne : q ≠ place := by
      rintro rfl
      exact hplace hq
    rw [entry?_put (ne_nil_of_ne_directory hplace), if_neg hne, hq]
  file q content' hq := by
    rw [entry?_put (ne_nil_of_ne_directory hplace)]
    split
    · exact ⟨content, rfl⟩
    · exact ⟨content', hq⟩

section Paths

theorem KeepsKinds.walk (hkeeps : KeepsKinds d d')
    (h : d.walk place steps = .ok place') : d'.walk place steps = .ok place' := by
  induction steps generalizing place with
  | nil => exact h
  | cons step rest ih =>
    rw [Disk.walk] at h ⊢
    cases hentry : d.entry? place with
    | none => simp [hentry] at h
    | some e =>
      cases e with
      | file content => simp [hentry] at h
      | directory =>
        rw [hkeeps.directory place hentry]
        simp only [hentry] at h ⊢
        split
        · rename_i hidle
          exact ih (by rwa [if_pos hidle] at h)
        · rename_i hidle
          rw [if_neg hidle] at h
          split
          · rename_i hup
            exact ih (by rwa [if_pos hup] at h)
          · rename_i hup
            exact ih (by rwa [if_neg hup] at h)

/-- A path leads where it led before. -/
theorem KeepsKinds.locate (hkeeps : KeepsKinds d d')
    (h : d.locate path = .ok place) : d'.locate path = .ok place := by
  rw [Disk.locate] at h ⊢
  split at h
  · cases h
  · rename_i hpath
    rw [if_neg hpath, origin, hkeeps.workingDirectory]
    exact hkeeps.walk h

end Paths

section Directories

/-- Directories that were made are there, and making them again changes nothing. -/
theorem makeFrom_again (h : d.makeFrom place steps = .ok d') :
    Grows d d' ∧ ∀ d'', KeepsKinds d' d'' → d''.makeFrom place steps = .ok d'' := by
  induction steps generalizing d place with
  | nil =>
    obtain rfl := Except.ok.inj h
    exact ⟨.refl d, fun _ _ => rfl⟩
  | cons step rest ih =>
    simp only [makeFrom] at h ⊢
    split at h
    · rename_i hidle
      simpa only [if_pos hidle] using ih h
    · rename_i hidle
      simp only [if_neg hidle]
      split at h
      · rename_i hup
        simpa only [if_pos hup] using ih h
      · rename_i hup
        simp only [if_neg hup]
        cases hentry : d.entry? (place ++ [step]) with
        | none =>
          rw [hentry] at h
          obtain ⟨hgrows, hagain⟩ := ih h
          refine ⟨(grows_put hentry _).trans hgrows, fun d'' hkeeps => ?_⟩
          have hmade : Disk.entry? (d.put (place ++ [step]) .directory) (place ++ [step]) =
              some .directory := by simp [entry?_put]
          rw [hkeeps.directory _ (hgrows.directory _ hmade)]
          exact hagain d'' hkeeps
        | some e =>
          rw [hentry] at h
          cases e with
          | file content => cases h
          | directory =>
            obtain ⟨hgrows, hagain⟩ := ih h
            refine ⟨hgrows, fun d'' hkeeps => ?_⟩
            rw [hkeeps.directory _ (hgrows.directory _ hentry)]
            exact hagain d'' hkeeps

end Directories

section Files

variable {content : String}

theorem read_eq_ok_iff : d.read path = .ok content ↔
    ∃ place, d.locate path = .ok place ∧ d.entry? place = some (.file content) := by
  rw [read]
  cases hlocate : d.locate path with
  | error p => simp [bind, Except.bind]
  | ok place =>
    cases hentry : d.entry? place with
    | none => simp [bind, Except.bind, hentry]
    | some e => cases e <;> simp [bind, Except.bind, hentry]

theorem Grows.read (hgrows : Grows d d') (h : d.read path = .ok content) :
    d'.read path = .ok content := by
  obtain ⟨place, hlocate, hentry⟩ := read_eq_ok_iff.1 h
  exact read_eq_ok_iff.2 ⟨place, hgrows.locate hlocate, hgrows.entry _ _ hentry⟩

theorem fst_approach (h : (approach path).2 = false) : (approach path).1 = Disk.steps path := by
  rw [approach] at h ⊢
  split
  · rename_i hsteps
    simp [hsteps] at h
  · exact List.reverse_reverse _

theorem snd_approach {name : String} (hname : name ≠ "") {names : List String}
    (hsteps : Disk.steps path = names ++ [name]) : (approach path).2 = false := by
  rw [approach, hsteps, List.reverse_append]
  split
  · rename_i heq
    exact absurd (List.cons.inj heq).1 hname
  · rfl

theorem exists_steps_join (directory : String) {name : String} (hname : '/' ∉ name.toList) :
    ∃ names, Disk.steps (join directory name) = names ++ [name] := by
  have hrelative : isAbsolute name = false := by
    rw [isAbsolute, beq_eq_false_iff_ne]
    exact fun hhead => hname (List.mem_of_mem_head? hhead)
  have hlast (front : List Char) :
      ((front ++ '/' :: name.toList).splitOn '/').map String.ofList =
        (front.splitOn '/').map String.ofList ++ [name] := by
    rw [List.splitOn_append_cons_self, List.splitOn_eq_singleton hname, List.map_append]
    simp
  rw [join, hrelative, Disk.steps]
  simp only [Bool.false_eq_true, if_false]
  split
  · rename_i hends
    rw [Bool.or_eq_true] at hends
    rcases hends with hempty | hslash
    · have hdirectory : directory = "" := String.isEmpty_iff.1 hempty
      refine ⟨[], ?_⟩
      simp [hdirectory, List.splitOn_eq_singleton hname]
    · obtain ⟨front, hfront⟩ := List.getLast?_eq_some_iff.1 (beq_iff_eq.1 hslash)
      refine ⟨_, (congrArg _ ?_).trans (hlast front)⟩
      simp [hfront]
  · refine ⟨_, (congrArg _ ?_).trans (hlast directory.toList)⟩
    simp

theorem exists_write (hread : d.read path = .ok content) (hfile : (approach path).2 = false)
    (content' : String) : ∃ d', d.write path content' = .ok d' := by
  obtain ⟨place, hlocate, hentry⟩ := read_eq_ok_iff.1 hread
  rw [locate] at hlocate
  split at hlocate
  · cases hlocate
  · rename_i hpath
    refine ⟨d.put place (.file content'), ?_⟩
    simp [write, hpath, fst_approach hfile, hlocate, hentry, hfile, bind, Except.bind]

theorem exists_of_write (h : d.write path content = .ok d') :
    ∃ place, d.locate path = .ok place ∧ d.entry? place ≠ some .directory ∧
      d' = d.put place (.file content) := by
  rw [write] at h
  rw [locate]
  by_cases hpath : path.isEmpty = true
  · simp [hpath, bind, Except.bind] at h
  · simp only [hpath, Bool.false_eq_true, if_false] at h ⊢
    cases hwalk : d.walk (d.origin path) (approach path).1 with
    | error p => simp [hwalk, bind, Except.bind] at h
    | ok place =>
      simp only [hwalk, bind, Except.bind] at h
      split at h
      · cases h
      · rename_i hfile
        split at h
        · cases h
        · rename_i hname
          rw [fst_approach (Bool.not_eq_true _ ▸ hname)] at hwalk
          exact ⟨place, hwalk, hfile, (Except.ok.inj h).symm⟩

/-- What was written to a file is what is read from it. -/
theorem read_write (h : d.write path content = .ok d') : d'.read path = .ok content := by
  obtain ⟨place, hlocate, hfile, rfl⟩ := exists_of_write h
  refine read_eq_ok_iff.2 ⟨place, (keepsKinds_put hfile content).locate hlocate, ?_⟩
  rw [entry?_put (ne_nil_of_ne_directory hfile), if_pos rfl]

end Files

section Locks

variable {mode : LockMode} {g : Guard}

/-- The tree with an empty file where nothing was. -/
def touch (d : Disk) (place : List String) : Disk :=
  if Option.isSome <| d.entry? place then d else d.put place (.file "")

theorem grows_touch (d : Disk) (place : List String) : Grows d (d.touch place) := by
  rw [touch]
  split
  · exact .refl d
  · rename_i hnone
    exact grows_put (Option.not_isSome_iff_eq_none.1 hnone) _

theorem entry?_touch (hplace : d.entry? place ≠ some .directory) :
    ∃ content, Disk.entry? (d.touch place) place = some (.file content) := by
  rw [touch]
  cases hentry : d.entry? place with
  | none => simp [entry?_put (ne_nil_of_ne_directory hplace)]
  | some e =>
    cases e with
    | file content => exact ⟨content, by simp [hentry]⟩
    | directory => exact absurd hentry hplace

/-- What it takes to take a lock, and what that leaves when the lock is given back. -/
theorem lock_eq_ok_iff : d.lock path mode = (.ok g, d') ↔
    ∃ d₁ place, d.makeDirectories (parent path) = .ok d₁ ∧ d₁.locate path = .ok place ∧
      d₁.entry? place ≠ some .directory ∧
      (∀ g' ∈ d₁.guards, g'.place = place → mode.admits g'.mode = true) ∧
      g = ⟨place, mode⟩ ∧
      d' = { d₁.touch place with guards := ⟨place, mode⟩ :: d₁.guards } := by
  rw [lock]
  cases hmade : d.makeDirectories (parent path) with
  | error p => simp
  | ok d₁ =>
    dsimp only
    cases hlocate : d₁.locate path with
    | error p => simp [hlocate]
    | ok place =>
      dsimp only
      split
      · rename_i hdirectory
        simp [hlocate, hdirectory]
      · rename_i hfile
        have hguards := (d₁.grows_touch place).guards
        have hadmits : (d₁.guards.all fun g' => g'.place != place || mode.admits g'.mode) = true ↔
            ∀ g' ∈ d₁.guards, g'.place = place → mode.admits g'.mode = true := by
          simp [List.all_eq_true, Decidable.imp_iff_not_or]
        rw [← touch, hguards]
        by_cases hall : ∀ g' ∈ d₁.guards, g'.place = place → mode.admits g'.mode = true
        · have hplace : d₁.entry? place ≠ some .directory := hfile
          rw [if_pos (hadmits.2 hall)]
          simp only [Prod.mk.injEq, Except.ok.injEq, exists_and_left, exists_eq_left', hlocate,
            eq_comm (b := g), eq_comm (b := d')]
          exact ⟨fun h => ⟨hplace, hall, h⟩, fun h => h.2.2⟩
        · rw [if_neg fun h => hall (hadmits.1 h)]
          simp [hlocate, hall]

theorem unlock_touched (d : Disk) (place : List String) (g : Guard) :
    ({ d.touch place with guards := g :: d.guards } : Disk).unlock g = d.touch place := by
  rw [unlock, List.erase_cons_head, ← (d.grows_touch place).guards]

/-- Taking a lock and giving it back leaves everything where it was. -/
theorem grows_unlock (h : d.lock path mode = (.ok g, d')) : Grows d (d'.unlock g) := by
  obtain ⟨d₁, place, hmade, -, -, -, rfl, rfl⟩ := lock_eq_ok_iff.1 h
  rw [unlock_touched]
  exact (makeFrom_again hmade).1.trans (d₁.grows_touch place)

/-- Who had a file alone can lock it again in any mode, whatever is written in between. -/
theorem exists_lock_again (h : d.lock path .write = (.ok g, d'))
    (hkeeps : KeepsKinds (d'.unlock g) d'') (mode : LockMode) :
    ∃ g' d₃, d''.lock path mode = (.ok g', d₃) := by
  obtain ⟨d₁, place, hmade, hlocate, hfile, hall, rfl, rfl⟩ := lock_eq_ok_iff.1 h
  rw [unlock_touched] at hkeeps
  have hkept := (d₁.grows_touch place).toKeepsKinds.trans hkeeps
  obtain ⟨-, hagain⟩ := makeFrom_again hmade
  have hmade' : d''.makeDirectories (parent path) = .ok d'' := by
    have horigin : d''.origin (parent path) = d.origin (parent path) := by
      rw [origin, origin, hkept.workingDirectory, (makeFrom_again hmade).1.workingDirectory]
    rw [makeDirectories, horigin]
    exact hagain d'' hkept
  obtain ⟨content, hcontent⟩ := entry?_touch hfile
  obtain ⟨content', hcontent'⟩ := hkeeps.file place content hcontent
  refine ⟨_, _, lock_eq_ok_iff.2 ⟨d'', place, hmade', hkept.locate hlocate, ?_, ?_, rfl, rfl⟩⟩
  · simp [hcontent']
  · intro g' hg' hplace
    rw [hkept.guards] at hg'
    -- Nobody else has a guard on a file that was locked for writing.
    cases hall g' hg' hplace

end Locks

end Disk

end MeetingLedger.Storage
