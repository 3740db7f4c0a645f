import MeetingLedger.Toml.Basic

/-!
# TOML documents while they are read

A table is defined once: by a header, by dotted keys, or as a passage to the tables below it, which
a header may still define.
-/

namespace MeetingLedger.Toml

inductive Origin where
  /-- The document itself, or a table with a header. -/
  | header
  /-- A table on the way to one with a header. -/
  | passage
  /-- A table on the way to a dotted key. -/
  | dotted
deriving DecidableEq

/-- What a name in a table stands for. -/
inductive Node where
  | value (v : Toml)
  | table (origin : Origin) (entries : List (String × Node))
  /-- A list of tables that grows with every header. -/
  | tables (items : List (List (String × Node)))
deriving Inhabited

abbrev Content := List (String × Node)

mutual
def Node.toToml : Node → Toml
  | .value v => v
  | .table _ entries => .table (contentToToml entries)
  | .tables items => .array (tablesToToml items)

def contentToToml : List (String × Node) → List (String × Toml)
  | [] => []
  | (k, n) :: es => (k, n.toToml) :: contentToToml es

def tablesToToml : List (List (String × Node)) → List Toml
  | [] => []
  | t :: ts => .table (contentToToml t) :: tablesToToml ts
end

namespace Content

def node? (c : Content) (name : String) : Option Node := (c.find? (·.1 == name)).map (·.2)

def set (c : Content) (name : String) (n : Node) : Content :=
  if (c.node? name).isSome then c.map fun e => if e.1 == name then (name, n) else e
  else c ++ [(name, n)]

/-- Changes the table under a path of names, making the tables on the way. Dotted keys do not
lead into tables with a header of their own. -/
def modify (isDotted : Bool) (change : Origin → Content → Option Content) :
    List String → Origin → Content → Option Content
  | [], origin, c => change origin c
  | name :: path, _, c =>
    let made := if isDotted then Origin.dotted else .passage
    match c.node? name with
    | none => (modify isDotted change path made []).map fun t => c.set name (.table made t)
    | some (.value _) => none
    | some (.table origin t) =>
      if isDotted && origin = .header then none
      else (modify isDotted change path origin t).map fun t => c.set name (.table origin t)
    | some (.tables items) =>
      match items.getLast? with
      | none => none
      | some t =>
        (modify isDotted change path .header t).map fun t =>
          c.set name (.tables (items.dropLast ++ [t]))

/-- Gives a name in a table a value. A table made by dotted keys grows by dotted keys only, and
no other table grows at the end of one. -/
def assign (isDotted : Bool) (name : String) (v : Toml) (origin : Origin) (c : Content) :
    Option Content :=
  if (origin = .dotted) ≠ isDotted then none
  else if (c.node? name).isSome then none
  else some (c.set name (.value v))

def assignPath (key : List String) (v : Toml) (origin : Origin) (c : Content) : Option Content :=
  match key.getLast? with
  | none => none
  | some name =>
    let path := key.dropLast
    modify true (assign (!path.isEmpty) name v) path origin c

/-- The document after `key = value` below a header. -/
def assignBelow (section_ key : List String) (v : Toml) (c : Content) : Option Content :=
  modify false (fun origin t => assignPath key v origin t) section_ .header c

def openTable (path : List String) (c : Content) : Option Content :=
  match path.getLast? with
  | none => none
  | some name =>
    modify false (fun _ t =>
      match Content.node? t name with
      | none => some (Content.set t name (.table .header []))
      | some (.table .passage entries) => some (Content.set t name (.table .header entries))
      | some _ => none) path.dropLast .header c

def openListTable (path : List String) (c : Content) : Option Content :=
  match path.getLast? with
  | none => none
  | some name =>
    modify false (fun _ t =>
      match Content.node? t name with
      | none => some (Content.set t name (.tables [[]]))
      | some (.tables items) => some (Content.set t name (.tables (items ++ [[]])))
      | some _ => none) path.dropLast .header c

end Content

end MeetingLedger.Toml
