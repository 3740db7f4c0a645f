import MeetingLedger.Consistency.Motion
import MeetingLedger.Consistency.Relation

/-!
# The check of a snapshot

A whole snapshot is checked against a registry. The check collects everything that is wrong and
never stops at the first finding.
-/

namespace MeetingLedger.Consistency

open Schema

/-- A registry, options, and the migration index that snapshots are compared with. -/
structure Checker where
  registry : Registry
  config : Config
  backendIndex : UInt64

def importedLater : List (String × String) :=
  [("meeting", "committee_id"), ("meeting", "is_active_in_organization_id")]

namespace Checker

variable (c : Checker)

/-- Whether a field may be empty because an import fills it in later. -/
def isExempt (collection field : String) : Bool :=
  c.config.mode.isMeeting && importedLater.contains (collection, field)

def indexFindings (s : Snapshot) : List Finding :=
  match s.migrationIndex, c.config.indexPolicy with
  | none, _ => [.noIndex]
  | some n, .strict => if n = c.backendIndex then [] else [.otherIndex n c.backendIndex]
  | some n, .permissive => if c.backendIndex < n then [.newerIndex n c.backendIndex] else []

/-- What is wrong with the value of a declared field. A value of the wrong type is not looked
into. -/
def fieldProblems (s : Snapshot) (origin : Fqid) (i : Instance) (f : Field) (v : Json) :
    List FieldProblem :=
  let exempt := c.isExempt origin.collection f.name
  let emptiness := if isEmptyValue v && f.required && !exempt then [FieldProblem.requiredEmpty]
    else []
  if v.isNull then emptiness
  else
    match f.type.check v with
    | .error e => emptiness ++ [.value e]
    | .ok () =>
      let constraints := match f.checkConstraints v with
        | .error e => [FieldProblem.value e]
        | .ok () => []
      let relations := if f.type.isRelation && !exempt then
          (relationProblems c.registry c.config.mode s origin i f v).map FieldProblem.relation
        else []
      emptiness ++ constraints ++ relations

def missingFields (collection : Collection) (i : Instance) : List String :=
  (collection.fields.filter fun f =>
    f.mustBePresent && !i.contains f.name && !c.isExempt collection.name f.name).map (·.name)

/-- The fields that are not declared. Names with a dollar sign are left over from former
structured fields and tolerated. -/
def unknownFields (collection : Collection) (i : Instance) : List String :=
  i.keys.filter fun name => !collection.hasField name && !name.toList.contains '$'

/-- What no declaration says about the fields of motions and files. -/
def contentProblems (s : Snapshot) (collection : String) (i : Instance) :
    List (String × FieldProblem) :=
  if collection = "motion" then (motionProblems s i).map fun p => (p.1, .motion p.2)
  else if collection = "meeting_mediafile" then
    (Visibility.problems s i).map fun p => (p.field, .visibility p)
  else []

def modelFindings (s : Snapshot) (collection : Collection) (origin : Fqid) (i : Instance) :
    List Finding :=
  let missing := c.missingFields collection i
  let unknown := unknownFields collection i
  (if missing.isEmpty then [] else [.missingFields origin missing]) ++
  (if unknown.isEmpty then [] else [.unknownFields origin unknown]) ++
  (collection.fields.flatMap fun f =>
    match i.get? f.name with
    | none => []
    | some v => (c.fieldProblems s origin i f v).map (.field origin f.name)) ++
  (contentProblems s collection.name i).map fun p => .field origin p.1 p.2

def collectionFindings (s : Snapshot) (name : String) (models : SortedMap UInt64 Instance) :
    List Finding :=
  match c.registry.collections.get? name with
  | none => [.unknownCollection name]
  | some collection =>
    if c.config.mode.isMeeting && !c.registry.isMeetingScoped name then
      [.collectionNotAllowed name c.config.mode]
    else models.entries.flatMap fun e => c.modelFindings s collection ⟨name, e.1⟩ e.2

/-- Everything that is wrong with a snapshot as it stands. -/
def findings (s : Snapshot) : List Finding :=
  c.indexFindings s ++ s.collections.entries.flatMap fun e => c.collectionFindings s e.1 e.2

end Checker

/-- Removes fields and then fills in the defaults of the fields that are absent. -/
def repairInstance (collection : Collection) (remove : List String) (i : Instance) : Instance :=
  collection.fields.foldl (fun i f =>
      match f.default with
      | some v => if i.contains f.name then i else i.insert f.name v
      | none => i)
    (remove.foldl SortedMap.erase i)

namespace Checker

variable (c : Checker)

def repair (s : Snapshot) : Snapshot :=
  { s with
    collections := s.collections.mapValues fun name models =>
      match c.registry.collections.get? name with
      | none => models
      | some collection =>
        let remove := (c.config.fieldsToRemove.get? name).getD []
        models.mapValues fun _ i => repairInstance collection remove i }

/-- Repairs a snapshot if the options say so, and checks the result. -/
def run (s : Snapshot) : Snapshot × List Finding :=
  let s := if c.config.repair then c.repair s else s
  (s, c.findings s)

/-- Checks the dataset that a document denotes, reporting problems of its shape and of its
content together. -/
def checkDocument (document : Json) : Except (List Finding) Snapshot :=
  let (s, problems) := Snapshot.parse document
  let (s, found) := c.run s
  let all := problems.map Finding.shape ++ found
  if all.isEmpty then .ok s else .error all

end Checker

end MeetingLedger.Consistency
