import MeetingLedger.Container.SortedMap

/-!
# Directories, files and locks

A tree of directories and files with advisory locks on files. Paths are texts that start at the root
of the tree or in a working directory.
-/

namespace MeetingLedger.Storage

inductive AccessProblem where
  | notFound
  | exists
  | notADirectory
  | isADirectory
deriving DecidableEq

def AccessProblem.message : AccessProblem → String
  | notFound => "No such file or directory (os error 2)"
  | .exists => "File exists (os error 17)"
  | notADirectory => "Not a directory (os error 20)"
  | isADirectory => "Is a directory (os error 21)"

/-- What is found at a place of the tree. -/
inductive Entry where
  | file (content : String)
  | directory

inductive LockMode where
  | read
  | write
deriving DecidableEq

namespace LockMode

def name : LockMode → String
  | read => "Read"
  | write => "Write"

def admits : LockMode → LockMode → Bool
  | read, read => true
  | _, _ => false

end LockMode

/-- A lock that is held on a file. -/
structure Guard where
  place : List String
  mode : LockMode
deriving DecidableEq

inductive LockProblem where
  /-- Others held it all the time that was allowed for waiting. -/
  | held
  | access (p : AccessProblem)
deriving DecidableEq

/-- The tree and the guards on its files. A place is the list of the names that lead to it. -/
structure Disk where
  entries : SortedMap (List String) Entry
  guards : List Guard
  /-- The place where paths start that do not start at the root. -/
  workingDirectory : List String

namespace Disk

def empty : Disk := ⟨∅, [], []⟩

instance : Inhabited Disk := ⟨empty⟩

def entry? (d : Disk) (place : List String) : Option Entry :=
  if place.isEmpty then some .directory else d.entries.get? place

def put (d : Disk) (place : List String) (e : Entry) : Disk :=
  { d with entries := d.entries.insert place e }

def steps (path : String) : List String := (path.toList.splitOn '/').map String.ofList

/-- The place that steps lead to from a place. All but the last have to lead to directories. -/
def walk (d : Disk) (place : List String) : List String → Except AccessProblem (List String)
  | [] => .ok place
  | step :: rest =>
    match d.entry? place with
    | none => .error .notFound
    | some (.file _) => .error .notADirectory
    | some .directory =>
      if step = "" ∨ step = "." then d.walk place rest
      else if step = ".." then d.walk place.dropLast rest
      else d.walk (place ++ [step]) rest

def isAbsolute (path : String) : Bool := path.toList.head? == some '/'

def origin (d : Disk) (path : String) : List String :=
  if isAbsolute path then [] else d.workingDirectory

/-- The place that a path names, whether or not something is there. -/
def locate (d : Disk) (path : String) : Except AccessProblem (List String) :=
  if path.isEmpty then .error .notFound else d.walk (d.origin path) (steps path)

def find? (d : Disk) (path : String) : Option Entry := do
  d.entry? (← (d.locate path).toOption)

def contains (d : Disk) (path : String) : Bool := (d.find? path).isSome

def isFile (d : Disk) (path : String) : Bool :=
  match d.find? path with
  | some (.file _) => true
  | _ => false

def read (d : Disk) (path : String) : Except AccessProblem String := do
  match d.entry? (← d.locate path) with
  | some (.file content) => .ok content
  | some .directory => .error .isADirectory
  | none => .error .notFound

/-- The steps of a path up to its last one, and whether that one has to be a directory. -/
def approach (path : String) : List String × Bool :=
  match (steps path).reverse with
  | "" :: rest => ((rest.dropWhile (· == "")).reverse, true)
  | names => (names.reverse, false)

/-- Replaces the content of a file, which is made if need be in a directory that is there. -/
def write (d : Disk) (path content : String) : Except AccessProblem Disk := do
  let (names, isDirectory) := approach path
  let place ← if path.isEmpty then .error .notFound else d.walk (d.origin path) names
  match d.entry? place with
  | some .directory => .error .isADirectory
  | _ => if isDirectory then .error .isADirectory else .ok (d.put place (.file content))

def removeFile (d : Disk) (path : String) : Except AccessProblem Disk := do
  let place ← d.locate path
  match d.entry? place with
  | some (.file _) => .ok { d with entries := d.entries.erase place }
  | some .directory => .error .isADirectory
  | none => .error .notFound

def makeFrom (d : Disk) (place : List String) : List String → Except AccessProblem Disk
  | [] => .ok d
  | step :: rest =>
    if step = "" ∨ step = "." then d.makeFrom place rest
    else if step = ".." then d.makeFrom place.dropLast rest
    else
      let next := place ++ [step]
      match d.entry? next with
      | some .directory => d.makeFrom next rest
      | some (.file _) => .error (if rest.isEmpty then .exists else .notADirectory)
      | none => (d.put next .directory).makeFrom next rest

def makeDirectories (d : Disk) (path : String) : Except AccessProblem Disk :=
  d.makeFrom (d.origin path) (steps path)

/-- A working directory and nothing but the directories on the way to it. -/
def within (path : String) : Disk :=
  let place := (steps path).filter fun s => s != "" && s != "."
  { (empty.makeFrom [] place).toOption.getD empty with workingDirectory := place }

def plant (d : Disk) (path content : String) : Except AccessProblem Disk := do
  (← d.makeFrom (d.origin path) (steps path).dropLast).write path content

def join (directory path : String) : String :=
  if isAbsolute path then path
  else if directory.isEmpty || directory.toList.getLast? == some '/' then directory ++ path
  else directory ++ "/" ++ path

/-- Steps without those at the end that stay where they are, the very first apart. -/
def trimSteps (steps : List String) : List String :=
  let isIdle := fun (s : String) => s == "" || s == "."
  match steps with
  | [] => []
  | first :: rest => first :: (rest.reverse.dropWhile isIdle).reverse

def parent (path : String) : String :=
  match trimSteps (trimSteps (steps path)).dropLast with
  | [""] => "/"
  | names => "/".intercalate names

/-- Makes the file of a lock and takes the lock if all who hold it get along with the mode. -/
def lock (d : Disk) (path : String) (mode : LockMode) : Except LockProblem Guard × Disk :=
  match d.makeDirectories (parent path) with
  | .error p => (.error (.access p), d)
  | .ok d =>
    match d.locate path with
    | .error p => (.error (.access p), d)
    | .ok place =>
      match d.entry? place with
      | some .directory => (.error (.access .isADirectory), d)
      | found =>
        let d := if found.isSome then d else d.put place (.file "")
        if d.guards.all fun g => g.place != place || mode.admits g.mode then
          (.ok ⟨place, mode⟩, { d with guards := ⟨place, mode⟩ :: d.guards })
        else (.error .held, d)

def unlock (d : Disk) (g : Guard) : Disk := { d with guards := d.guards.erase g }

end Disk

end MeetingLedger.Storage
