import MeetingLedger.Dataset.Snapshot

/-!
# Visibilities of files

Who may see a file of a meeting. The visibility of a file follows from the groups that are given
access to it and from the visibility of the directory that it lies in.
-/

namespace MeetingLedger

/-- Whether a file is public and, if it is not, the groups that may see it. -/
structure Visibility where
  isPublic : Bool
  groups : List UInt64
deriving DecidableEq

abbrev IdSet := SortedMap UInt64 Unit

def IdSet.ofIds (ids : List UInt64) : IdSet := SortedMap.ofList (ids.map fun id => (id, ()))

def IdSet.text (s : IdSet) : String :=
  "\x7b" ++ ", ".intercalate (s.keys.map fun id => toString id.toNat) ++ "\x7d"

inductive VisibilityProblem where
  | isPublic (expected found : Bool)
  | groups (expected found : IdSet)
deriving DecidableEq

namespace VisibilityProblem

def field : VisibilityProblem → String
  | isPublic .. => "is_public"
  | groups .. => "inherited_access_group_ids"

def message : VisibilityProblem → String
  | isPublic expected found => s!"is_public is wrong: expected {expected}, found {found}"
  | groups expected found =>
    s!"inherited_access_group_ids is wrong: expected {expected.text}, found {found.text}"

end VisibilityProblem

namespace Visibility

/-- What lies in no directory inherits from a public place. -/
def root : Visibility := ⟨true, []⟩

/-- The visibility that a file records; a file that records none is public. -/
def stored (file : Instance) : Visibility :=
  ⟨(file.boolAt? "is_public").getD true, file.idsAt "inherited_access_group_ids"⟩

/-- The visibility of a file with access for some groups in a directory: each side that names
groups restricts, and without groups on either side the file is as public as the directory. -/
def compute (access : List UInt64) (directory : Visibility) : Visibility :=
  match access, directory.groups with
  | [], [] => ⟨directory.isPublic, []⟩
  | [], groups => ⟨false, groups⟩
  | access, [] => ⟨false, access⟩
  | access, groups => ⟨false, access.filter groups.contains⟩

/-- The file that acts as the directory of another one: both belong to one meeting, and the
medium of the first is the parent of the medium of the second. -/
def parentOf? (s : Snapshot) (file : Instance) : Option Instance := do
  let meeting ← file.idAt? "meeting_id"
  let medium ← s.instance? "mediafile" (← file.idAt? "mediafile_id")
  let parent ← medium.idAt? "parent_id"
  (← s.collection? "meeting_mediafile").values.find? fun candidate =>
    candidate.idAt? "meeting_id" == some meeting && candidate.idAt? "mediafile_id" == some parent

/-- What follows from the access of a file and the record of its directory. -/
def expected (s : Snapshot) (file : Instance) : Visibility :=
  compute (file.idsAt "access_group_ids") (((parentOf? s file).map stored).getD root)

/-- The derived fields of a file that are off. A truth value that is absent is not. -/
def problems (s : Snapshot) (file : Instance) : List VisibilityProblem :=
  let due := expected s file
  let dueGroups := IdSet.ofIds due.groups
  let groups := IdSet.ofIds (file.idsAt "inherited_access_group_ids")
  (match file.boolAt? "is_public" with
    | some found => if found = due.isPublic then [] else [.isPublic due.isPublic found]
    | none => []) ++
  (if groups = dueGroups then [] else [.groups dueGroups groups])

end Visibility

end MeetingLedger
