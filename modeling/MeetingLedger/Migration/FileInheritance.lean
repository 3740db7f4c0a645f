import MeetingLedger.Dataset.Visibility
import MeetingLedger.Migration.Step

/-!
# Inherited visibilities

The step to migration index 4. The visibility of files used to be derived from outdated records; the
step derives it anew from the roots down and brings the lists of the groups in line with it.
-/

namespace MeetingLedger.Migration.FileInheritance

def fileCollection : String := "meeting_mediafile"

/-- The list in a group of the files that inherit it. -/
def inheritingField : String := "meeting_mediafile_inherited_access_group_ids"

def placement? (file : Instance) : Option (UInt64 × UInt64) := do
  some (← file.idAt? "meeting_id", ← file.idAt? "mediafile_id")

/-- The file with the highest id at a placement. -/
def fileAt? (files : List (UInt64 × Instance)) (place : UInt64 × UInt64) : Option UInt64 :=
  (files.reverse.find? fun e => placement? e.2 == some place).map (·.1)

/-- The file that acts as the directory of another one. -/
def parentOf? (h : History) (files : List (UInt64 × Instance)) (file : Instance) :
    Option UInt64 := do
  let (meeting, medium) ← placement? file
  let parent ← (← h.get? ⟨"mediafile", medium⟩).idAt? "parent_id"
  fileAt? files (meeting, parent)

structure Node where
  file : Instance
  parent : Option UInt64

/-- The files of all meetings with their directories. -/
abbrev Tree := SortedMap UInt64 Node

namespace Tree

def ofHistory (h : History) : Tree :=
  let files := h.collection fileCollection
  SortedMap.ofList (files.map fun e => (e.1, ⟨e.2, parentOf? h files e.2⟩))

def access (t : Tree) (id : UInt64) : List UInt64 :=
  ((t.get? id).map fun n => n.file.idsAt "access_group_ids").getD []

def parent? (t : Tree) (id : UInt64) : Option UInt64 := (t.get? id).bind (·.parent)

/-- Visibilities that were derived already. -/
abbrev Known := SortedMap UInt64 Visibility

/-- Derives the visibility of a file from the one of its directory, which is derived first. A
directory that was visited on the way to itself closes a cycle. -/
def resolve (t : Tree) (known : Known) (unvisited : List UInt64) (id : UInt64) :
    Except StepError (Visibility × Known) :=
  match known.get? id with
  | some v => .ok (v, known)
  | none =>
    if _ : id ∈ unvisited then do
      let (directory, known) ← match t.parent? id with
        | none => .ok (Visibility.root, known)
        | some parent => t.resolve known (unvisited.erase id) parent
      let v := Visibility.compute (t.access id) directory
      .ok (v, known.insert id v)
    else .error (.invalid ⟨fileCollection, id⟩ .cycle)
termination_by unvisited.length
decreasing_by
  have visits : id ∈ unvisited := by assumption
  have := List.length_pos_of_mem visits
  simp only [List.length_erase_of_mem visits]
  omega

def resolveAll (t : Tree) : Except StepError Known :=
  t.keys.foldlM (fun known id => do .ok (← t.resolve known t.keys id).2) ∅

end Tree

/-- For each group the files that start or stop to inherit it. -/
abbrev GroupChanges := SortedMap UInt64 (SortedMap UInt64 Bool)

def recordedGroups (file : Instance) : IdSet :=
  IdSet.ofIds (file.idsAt "inherited_access_group_ids")

def corrections (file : Instance) (due : Visibility) : Instance :=
  let fields : Instance :=
    if file.boolAt? "is_public" = some due.isPublic then ∅
    else (∅ : Instance).insert "is_public" (.boolean due.isPublic)
  if recordedGroups file = IdSet.ofIds due.groups then fields
  else fields.insert "inherited_access_group_ids" (.ofIds due.groups)

/-- Takes down the groups that a file starts or stops to inherit. -/
def noteGroups (id : UInt64) (file : Instance) (due : Visibility) (changes : GroupChanges) :
    GroupChanges :=
  let recorded := recordedGroups file
  let wanted := IdSet.ofIds due.groups
  let started := wanted.keys.filter (!recorded.contains ·)
  let stopped := recorded.keys.filter (!wanted.contains ·)
  let note := fun (inherits : Bool) (changes : GroupChanges) group =>
    changes.update group ∅ (·.insert id inherits)
  stopped.foldl (note false) (started.foldl (note true) changes)

def changeList (files : List UInt64) (change : UInt64 × Bool) : List UInt64 :=
  if change.2 then if files.contains change.1 then files else files ++ [change.1]
  else files.filter (· != change.1)

/-- The change to the list of a group, unless it does not exist. -/
def groupChange? (h : History) (group : UInt64) (changes : SortedMap UInt64 Bool) :
    Option ModelChange :=
  let f : Fqid := ⟨"group", group⟩
  (h.get? f).map fun i =>
    .update f ((∅ : Instance).insert inheritingField
      (.ofIds (changes.entries.foldl changeList (i.idsAt inheritingField))))

def modelChanges (h : History) (t : Tree) (known : Tree.Known) : List ModelChange :=
  let due := fun (id : UInt64) => (known.get? id).getD Visibility.root
  let files := t.entries.filterMap fun (id, n) =>
    let fields := corrections n.file (due id)
    if fields.isEmpty then none else some (ModelChange.update ⟨fileCollection, id⟩ fields)
  let changes := t.entries.foldl
    (fun changes (id, n) => noteGroups id n.file (due id) changes) (∅ : GroupChanges)
  files ++ changes.entries.filterMap fun e => groupChange? h e.1 e.2

/-- All changes that bring the records in line, unless directories form a cycle. -/
def migrateModels (h : History) : Except StepError (List ModelChange) := do
  let t := Tree.ofHistory h
  .ok (modelChanges h t (← t.resolveAll))

/-- The step itself, which remembers nothing. -/
def step : ModelStep where
  target := 4
  name := "meeting_mediafile_inheritance"
  State := Unit
  state := ()
  migrateModels := fun h s => ⟨migrateModels h, s⟩

end MeetingLedger.Migration.FileInheritance
