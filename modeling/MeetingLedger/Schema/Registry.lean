import MeetingLedger.Container.SortedMap
import MeetingLedger.ErrorCode
import MeetingLedger.Schema.Value
import MeetingLedger.Yaml.Basic

/-!
# Registries

All collections, their fields and the relations between them. A registry is accepted only if each
relation is mirrored: the field at its other end points back.
-/

namespace MeetingLedger.Schema

/-- A collection and its fields in the order of their declaration. -/
structure Collection where
  name : String
  fields : List Field

namespace Collection

/-- The declaration of a field; of fields with one name the last counts. -/
def field? (c : Collection) (name : String) : Option Field :=
  c.fields.reverse.find? (·.name == name)

def hasField (c : Collection) (name : String) : Bool := (c.field? name).isSome

end Collection

/-- The declaration of every collection. -/
structure Registry where
  collections : SortedMap String Collection

inductive OutlineProblem where
  | topLevel
  | collectionKey (key : Yaml)
  | collectionName (name : String)
  | fieldList (collection : String)
  | fieldKey (collection : String)
  | noId (collection : String)

inductive TargetProblem where
  | notATarget (raw : String)
  | entryNotText
  | collectionsNotAList
  | collectionNotText
  | noCollection
  | unsupported
  | unnamedReverse
  | noReverse

inductive OptionProblem where
  | notAMapping
  | keyNotText
  | notText
  | notValues
  | notOnDelete
  | notFieldNames
  | notFieldNameOrList
  | notPattern
  | badPattern
  | noJson
  | notBoolean
  | notNumber
  | notLength
  | missing
  | target (problem : TargetProblem)
  | targetOnType (typeName : String)
  | noTarget
  | noTargets
  | severalTargets
  | badDefault (value : Json) (e : FieldError)

inductive MirrorProblem where
  | noCollection
  | noField
  | noRelation (found : FieldType)
  | pointsElsewhere (targets : List Target)
  | noEqualField (name : String)

inductive RegistryError where
  | unknownCollection (name : String)
  | unknownField (collection field : String)
  | notYaml
  | malformed (problem : OutlineProblem)
  | unknownOption (collection field key : String)
  | unknownType (collection field typeName : String)
  | invalidOption (collection field key : String) (problem : OptionProblem)
  | notMirrored (field : String) (target : Target) (problem : MirrorProblem)

def OutlineProblem.message : OutlineProblem → String
  | topLevel => "top level must map collection names to field declarations"
  | collectionKey key => "non-string collection key " ++ key.inspect
  | collectionName name => s!"invalid collection name '{name}'"
  | fieldList collection => s!"collection '{collection}' must map field names to declarations"
  | fieldKey collection => s!"non-string field key in '{collection}'"
  | noId collection => s!"collection '{collection}' declares no id field"

def TargetProblem.message : TargetProblem → String
  | notATarget raw => s!"'{raw}' is not of the form 'collection/field'"
  | entryNotText => "list entries must be 'collection/field' strings"
  | collectionsNotAList => "'collections' must be a list"
  | collectionNotText => "collection names must be strings"
  | noCollection => "expected 'collection' or 'collections'"
  | unsupported => "unsupported target declaration"
  | unnamedReverse => "inline reverse field needs a 'name'"
  | noReverse => "missing reverse 'field'"

def OptionProblem.message : OptionProblem → String
  | notAMapping => "field declaration must be a mapping"
  | keyNotText => "option keys must be strings"
  | notText => "expected a string"
  | notValues => "expected a list of values"
  | notOnDelete => "expected CASCADE, PROTECT or SET_NULL"
  | notFieldNames => "expected field names"
  | notFieldNameOrList => "expected a field name or a list"
  | notPattern => "expected a regular expression"
  | badPattern => "not a regular expression"
  | noJson => "not a JSON value"
  | notBoolean => "expected true or false"
  | notNumber => "expected a number"
  | notLength => "expected a non-negative integer"
  | missing => "missing"
  | target problem => problem.message
  | targetOnType typeName => s!"not allowed on {typeName} fields"
  | noTarget => "relation fields need a target"
  | noTargets => "generic relations need at least one target"
  | severalTargets => "use a generic relation for multiple targets"
  | badDefault value e => s!"{value.compact} is not valid: {e.message}"

def MirrorProblem.message : MirrorProblem → String
  | noCollection => "collection is not declared"
  | noField => "reverse field is not declared"
  | noRelation found => "reverse field has non-relational type " ++ found.name
  | pointsElsewhere targets =>
    "reverse field points to " ++ ", ".intercalate (targets.map Target.text)
  | noEqualField name => s!"equal field '{name}' is missing on one side"

namespace RegistryError

def message : RegistryError → String
  | unknownCollection name => s!"unknown collection '{name}'"
  | unknownField collection field => s!"unknown field '{collection}/{field}'"
  | notYaml => "models document is not valid YAML: it cannot be read"
  | malformed problem => "models document is malformed: " ++ problem.message
  | unknownOption collection field key => s!"{collection}/{field}: unknown option '{key}'"
  | unknownType collection field typeName =>
    s!"{collection}/{field}: unknown type '{typeName}'"
  | invalidOption collection field key problem =>
    s!"{collection}/{field}: invalid option '{key}': {problem.message}"
  | notMirrored field target problem =>
    s!"{field}: relation to {target.text} is not mirrored: {problem.message}"

def code : RegistryError → ErrorCode := fun _ => .modelRegistryInvalid

end RegistryError

namespace Registry

def collectionNames (r : Registry) : List String := r.collections.keys

def hasCollection (r : Registry) (name : String) : Bool := r.collections.contains name

def collection (r : Registry) (name : String) : Except RegistryError Collection :=
  match r.collections.get? name with
  | some c => .ok c
  | none => .error (.unknownCollection name)

def field (r : Registry) (collection name : String) : Except RegistryError Field := do
  match (← r.collection collection).field? name with
  | some f => .ok f
  | none => .error (.unknownField collection name)

def field? (r : Registry) (collection name : String) : Option Field :=
  (r.collections.get? collection).bind (·.field? name)

/-- Collections that are part of a meeting although they do not name it. -/
def meetingExtras : List String := ["meeting", "user", "mediafile"]

/-- Whether the models of a collection belong to a meeting. -/
def isMeetingScoped (r : Registry) (collection : String) : Bool :=
  meetingExtras.contains collection ||
    (r.field? collection "meeting_id").any fun f =>
      match f.type with
      | .relation target => target.collection == "meeting"
      | _ => false

/-- Why a field at one end of a relation has no mirror at the other end. -/
def mirrorProblem? (r : Registry) (c : Collection) (f : Field) (target : Target) :
    Option MirrorProblem :=
  match r.collections.get? target.collection with
  | none => some .noCollection
  | some other =>
    match other.field? target.field with
    | none => some .noField
    | some reverse =>
      if !reverse.type.isRelation then some (.noRelation reverse.type)
      else if !reverse.type.targets.contains ⟨c.name, f.name⟩ then
        some (.pointsElsewhere reverse.type.targets)
      else
        (f.equalFields.find? fun name => !c.hasField name || !other.hasField name).map .noEqualField

def firstMirrorProblem? (r : Registry) : Option RegistryError :=
  r.collections.values.findSome? fun c => c.fields.findSome? fun f =>
    f.type.targets.findSome? fun target =>
      (r.mirrorProblem? c f target).map (.notMirrored f.qualifiedName target)

/-- The registry of some collections, if all their relations are mirrored. -/
def ofCollections (collections : List Collection) : Except RegistryError Registry :=
  let r : Registry := ⟨SortedMap.ofList (collections.map fun c => (c.name, c))⟩
  match r.firstMirrorProblem? with
  | none => .ok r
  | some e => .error e

end Registry

end MeetingLedger.Schema
