import MeetingLedger.Dataset.Instance
import MeetingLedger.Json.Reader

/-!
# Snapshots

A whole dataset and its JSON image: an object that maps each collection to an object of instances
keyed by their decimal ids. Names that start with an underscore are reserved; one of them holds the
migration index.
-/

namespace MeetingLedger

/-- The instances of every collection and the migration index they are written at. -/
structure Snapshot where
  migrationIndex : Option UInt64
  collections : SortedMap String (SortedMap UInt64 Instance)
deriving Inhabited

/-- A part of a JSON image that does not have the shape of a dataset. -/
inductive ShapeProblem where
  | notAnObject
  | migrationIndex (found : Json)
  | collection (name : String)
  | idKey (collection key : String)
  | model (collection : String) (id : UInt64)
  | idField (collection : String) (id : UInt64) (found : Json)

/-- The reserved name of the migration index. -/
def migrationIndexKey : String := "_migration_index"

def ShapeProblem.message : ShapeProblem → String
  | notAnObject => "Snapshot must be a JSON object"
  | migrationIndex found =>
    s!"{migrationIndexKey}: must be a non-negative integer, got {found.compact}"
  | collection name => s!"{name}: Collection must map ids to instances"
  | idKey name key => s!"{name}/{key}: Invalid id key"
  | model name id => s!"{name}/{id.toNat}: Instance must be an object"
  | idField name id found =>
    s!"{name}/{id.toNat}/id: Id {found.compact} does not match the key {id.toNat}"

/-- Why a document is no snapshot. -/
inductive SnapshotError where
  | notJson
  | malformed (problems : List ShapeProblem)

def SnapshotError.message : SnapshotError → String
  | notJson => "snapshot is not valid JSON"
  | malformed problems =>
    "snapshot is malformed:\n\t" ++ "\n\t".intercalate (problems.map ShapeProblem.message)

namespace Snapshot

def empty (migrationIndex : UInt64) : Snapshot := ⟨some migrationIndex, ∅⟩

def isReserved (name : String) : Bool := name.toList.head? == some '_'

def modelOf? (member : String × Json) : Option (UInt64 × Instance) := do
  let id ← parseId? member.1.toList
  let fields ← member.2.members?
  some (id, SortedMap.ofList fields)

/-- What is wrong with a member of a collection. -/
def modelProblems (collection : String) (member : String × Json) : List ShapeProblem :=
  match parseId? member.1.toList with
  | none => [.idKey collection member.1]
  | some id =>
    match member.2.members? with
    | none => [.model collection id]
    | some fields =>
      match (SortedMap.ofList fields : Instance).get? "id" with
      | none => []
      | some found => if found.id? = some id then [] else [.idField collection id found]

def collectionOf? (member : String × Json) : Option (String × SortedMap UInt64 Instance) :=
  if isReserved member.1 then none
  else member.2.members?.map fun models => (member.1, SortedMap.ofList (models.filterMap modelOf?))

def memberProblems (member : String × Json) : List ShapeProblem :=
  if member.1 = migrationIndexKey then
    if member.2.id?.isSome then [] else [.migrationIndex member.2]
  else if isReserved member.1 then []
  else
    match member.2.members? with
    | none => [.collection member.1]
    | some models => models.flatMap (modelProblems member.1)

/-- The part of a document that has the right shape, and what is wrong with the rest. -/
def parse (document : Json) : Snapshot × List ShapeProblem :=
  match document with
  | .object members =>
    (⟨(document.member? migrationIndexKey).bind Json.id?,
      SortedMap.ofList (members.filterMap collectionOf?)⟩, members.flatMap memberProblems)
  | _ => (⟨none, ∅⟩, [.notAnObject])

/-- The snapshot that a document denotes as a whole. -/
def ofJson (document : Json) : Except SnapshotError Snapshot :=
  let (snapshot, problems) := parse document
  if problems.isEmpty then .ok snapshot else .error (.malformed problems)

def ofText (text : String) : Except SnapshotError Snapshot :=
  match Json.parse? text with
  | some document => ofJson document
  | none => .error .notJson

def collectionToJson (models : SortedMap UInt64 Instance) : Json :=
  .object (Entries.ofList (models.entries.map fun e => (toString e.1.toNat, .ofMap e.2)))

def toJson (s : Snapshot) : Json :=
  let index := (s.migrationIndex.map fun n => (migrationIndexKey, Json.ofUInt64 n)).toList
  .object (Entries.ofList
    (index ++ s.collections.entries.map fun e => (e.1, collectionToJson e.2)))

def collectionNames (s : Snapshot) : List String := s.collections.keys

def collection? (s : Snapshot) (name : String) : Option (SortedMap UInt64 Instance) :=
  s.collections.get? name

def instance? (s : Snapshot) (collection : String) (id : UInt64) : Option Instance :=
  (s.collection? collection).bind (·.get? id)

def get? (s : Snapshot) (f : Fqid) : Option Instance := s.instance? f.collection f.id

/-- Stores an instance under an id, which becomes its `id` field. -/
def insert (s : Snapshot) (collection : String) (id : UInt64) (fields : Instance) : Snapshot :=
  ⟨s.migrationIndex, s.collections.update collection ∅
    fun models => models.insert id (fields.insert "id" (.ofUInt64 id))⟩

def size (s : Snapshot) : Nat := s.collections.values.foldl (fun n models => n + models.size) 0

end Snapshot

end MeetingLedger
