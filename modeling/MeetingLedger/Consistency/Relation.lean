import MeetingLedger.Consistency.Finding
import MeetingLedger.Schema.Registry

/-!
# References between models

The references that a snapshot holds: each has to lead to a model that refers back, and both ends
have to agree in the fields that the relation names.
-/

namespace MeetingLedger

open Schema

/-- What a relation field names: a model where the field may point, or a model in a collection
where it may not. -/
inductive Reference where
  | allowed (model : Fqid) (target : Target)
  | foreign (collection : String)

namespace Schema.FieldType

def genericReference? (type : FieldType) (v : Json) : Option Reference := do
  let model ← Fqid.parse? (← v.string?)
  match type.targetFor? model.collection with
  | some target => some (.allowed model target)
  | none => some (.foreign model.collection)

def plainReference? (target : Target) (v : Json) : Option Reference :=
  v.id?.map fun id => .allowed ⟨target.collection, id⟩ target

/-- The references that a value of a type holds, in order. -/
def references (type : FieldType) (v : Json) : List Reference :=
  match type with
  | relation target => (plainReference? target v).toList
  | relationList target => (v.array?.getD []).filterMap (plainReference? target)
  | genericRelation _ => (type.genericReference? v).toList
  | genericRelationList _ => (v.array?.getD []).filterMap type.genericReference?
  | scalar _ | array _ => []

/-- Whether a value of a type refers to a model. -/
def refersTo (type : FieldType) (v : Json) (model : Fqid) : Bool :=
  match type with
  | relation _ => v.id? == some model.id
  | relationList _ => v.array?.any fun items => items.any fun i => i.id? == some model.id
  | genericRelation _ => v.string? == some model.text
  | genericRelationList _ =>
    v.array?.any fun items => items.any fun i => i.string? == some model.text
  | scalar _ | array _ => false

end Schema.FieldType

namespace Consistency

def disagreements (names : List String) (ours theirs : Instance) (target : Fqid) :
    List RelationProblem :=
  (names.filter fun name => ours.get? name != theirs.get? name).map fun name =>
    .differs name target (ours.get? name) (theirs.get? name)

/-- What is wrong with a reference to a model that is there. -/
def linkProblems (r : Registry) (origin : Fqid) (ours : Instance) (f : Field) (model : Fqid)
    (target : Target) (theirs : Instance) : List RelationProblem :=
  let isReversed := match r.field? target.collection target.field with
    | none => true
    | some reverse =>
      (theirs.get? target.field).any fun v => reverse.type.refersTo v origin
  (if isReversed then [] else [.notReversed model target.field]) ++
    disagreements f.equalFields ours theirs model

/-- What is wrong with one reference of a field. -/
def referenceProblems (r : Registry) (mode : Mode) (s : Snapshot) (origin : Fqid)
    (ours : Instance) (f : Field) : Reference → List RelationProblem
  | .foreign collection => [.notAllowed collection (f.type.targets.map (·.collection))]
  | .allowed model target =>
    if mode.isMeeting && !r.isMeetingScoped model.collection then
      if mode = .external then [.outsideMeeting model] else []
    else
      match s.get? model with
      | none => [.notFound model]
      | some theirs => linkProblems r origin ours f model target theirs

def relationProblems (r : Registry) (mode : Mode) (s : Snapshot) (origin : Fqid)
    (ours : Instance) (f : Field) (v : Json) : List RelationProblem :=
  (f.type.references v).flatMap (referenceProblems r mode s origin ours f)

end Consistency

end MeetingLedger
