import MeetingLedger.Pattern.Reader
import MeetingLedger.Schema.Registry
import MeetingLedger.Yaml.Reader

/-!
# Registries from documents

A document maps collection names to field names to options. Options are read in the order of the
document, and the first problem wins.
-/

namespace MeetingLedger.Schema

/-- Options that describe how a field is stored; they say nothing about its values. -/
def storageOptions : List String :=
  ["reference", "sql", "deferred", "unique", "items", "restriction_mode", "description",
    "read_only", "constant"]

structure Draft where
  typeName : Option String := none
  target? : Option Yaml := none
  required : Bool := false
  default : Option Json := none
  constraints : Constraints := {}
  onDelete : OnDelete := .setNull
  equalFields : List String := []
  calculated : Bool := false

namespace Target

def ofText (raw : String) : Except TargetProblem Target :=
  match splitAtFirst '/' raw.toList with
  | some (c, f) =>
    if isCollectionName (String.ofList c) && !f.isEmpty then
      .ok ⟨String.ofList c, String.ofList f⟩
    else .error (.notATarget raw)
  | none => .error (.notATarget raw)

/-- The field that points back, by its name or by a declaration with a name. -/
def reverseName (entries : List (Yaml × Yaml)) : Except TargetProblem String :=
  match Yaml.lookup? entries "field" with
  | some (.string name) => .ok name
  | some (.mapping declaration) =>
    match (Yaml.lookup? declaration "name").bind Yaml.string? with
    | some name => .ok name
    | none => .error .unnamedReverse
  | _ => .error .noReverse

/-- Targets as one text, a list of texts, or a mapping of one collection or several to a field
that points back. -/
def ofYaml : Yaml → Except TargetProblem (List Target)
  | .string raw => (ofText raw).map ([·])
  | .sequence items => items.mapM fun item =>
    match item.string? with
    | some raw => ofText raw
    | none => .error .entryNotText
  | .mapping entries => do
    let field ← reverseName entries
    match Yaml.lookup? entries "collections" with
    | some (.sequence items) => items.mapM fun item =>
      match item.string? with
      | some c => .ok ⟨c, field⟩
      | none => .error .collectionNotText
    | some _ => .error .collectionsNotAList
    | none =>
      match (Yaml.lookup? entries "collection").bind Yaml.string? with
      | some c => .ok [⟨c, field⟩]
      | none => .error .noCollection
  | _ => .error .unsupported

end Target

namespace Draft

def orElse {α : Type} (problem : OptionProblem) : Option α → Except OptionProblem α
  | some a => .ok a
  | none => .error problem

def json (v : Yaml) : Except OptionProblem Json := orElse .noJson v.toJson?

def number (v : Yaml) : Except OptionProblem Real64 :=
  orElse .notNumber (match v with
    | .number n => some n.toReal
    | .string s => Real64.read? s.toList
    | _ => none)

def fieldNames : Yaml → Except OptionProblem (List String)
  | .string name => .ok [name]
  | .sequence items => items.mapM fun item => orElse .notFieldNames item.string?
  | _ => .error .notFieldNameOrList

def values : Yaml → Except OptionProblem (List Json)
  | .sequence items => items.mapM json
  | _ => .error .notValues

def pattern (v : Yaml) : Except OptionProblem Pattern := do
  let raw ← orElse .notPattern v.string?
  orElse .badPattern (Pattern.parse? raw)

def constrain {α : Type} (d : Draft) (value : Except OptionProblem α)
    (set : Constraints → α → Constraints) : Except OptionProblem Draft :=
  value.map fun a => { d with constraints := set d.constraints a }

def takeOption? (d : Draft) (key : String) (v : Yaml) : Option (Except OptionProblem Draft) :=
  match key with
  | "type" => some ((orElse .notText v.string?).map fun s => { d with typeName := some s })
  | "to" => some (.ok { d with target? := some v })
  | "required" => some ((orElse .notBoolean v.bool?).map fun b => { d with required := b })
  | "calculated" => some ((orElse .notBoolean v.bool?).map fun b => { d with calculated := b })
  | "default" => some ((json v).map fun j => { d with default := some j })
  | "enum" => some (d.constrain (values v) fun c vs => { c with allowed := some vs })
  | "on_delete" =>
    some ((orElse .notOnDelete (v.string?.bind OnDelete.ofName?)).map
      fun o => { d with onDelete := o })
  | "equal_fields" => some ((fieldNames v).map fun names => { d with equalFields := names })
  | "minimum" => some (d.constrain (number v) fun c x => { c with minimum := some x })
  | "maximum" => some (d.constrain (number v) fun c x => { c with maximum := some x })
  | "minLength" =>
    some (d.constrain (orElse .notLength v.natural?) fun c n => { c with minLength := some n })
  | "maxLength" =>
    some (d.constrain (orElse .notLength v.natural?) fun c n => { c with maxLength := some n })
  | "pattern" => some (d.constrain (pattern v) fun c p => { c with pattern := some p })
  | key => if storageOptions.contains key then some (.ok d) else none

end Draft

def relationTypes : List String :=
  ["relation", "relation-list", "generic-relation", "generic-relation-list"]

/-- The text in front of the brackets of a list type. -/
def itemTypeName? (typeName : String) : Option String :=
  match typeName.toList.reverse with
  | ']' :: '[' :: rest => some (String.ofList rest.reverse)
  | _ => none

/-- Why a type is not accepted: a problem with the targets, or an unknown name. -/
inductive TypeProblem where
  | option (problem : OptionProblem)
  | unknown

def FieldType.declare (typeName : String) (target? : Option Yaml) : Except TypeProblem FieldType :=
  if !relationTypes.contains typeName then
    if target?.isSome then .error (.option (.targetOnType typeName))
    else
      let declared := match itemTypeName? typeName with
        | some inner => (ScalarType.ofName? inner).map FieldType.array
        | none => (ScalarType.ofName? typeName).map FieldType.scalar
      match declared with
      | some t => .ok t
      | none => .error .unknown
  else
    match target? with
    | none => .error (.option .noTarget)
    | some target =>
      match Target.ofYaml target with
      | .error p => .error (.option (.target p))
      | .ok targets =>
        if typeName == "generic-relation" || typeName == "generic-relation-list" then
          if targets.isEmpty then .error (.option .noTargets)
          else if typeName == "generic-relation" then .ok (.genericRelation targets)
          else .ok (.genericRelationList targets)
        else
          match targets with
          | [target] =>
            if typeName == "relation" then .ok (.relation target) else .ok (.relationList target)
          | _ => .error (.option .severalTargets)

namespace Field

def readOption (collection name : String) (d : Draft) (option : Yaml × Yaml) :
    Except RegistryError Draft :=
  match option.1.string? with
  | none => .error (.invalidOption collection name "?" .keyNotText)
  | some key =>
    match d.takeOption? key option.2 with
    | none => .error (.unknownOption collection name key)
    | some (.error p) => .error (.invalidOption collection name key p)
    | some (.ok d) => .ok d

/-- The field that a complete draft declares, its default being a valid value. -/
def ofDraft (collection name : String) (d : Draft) : Except RegistryError Field := do
  let typeName ← match d.typeName with
    | some t => .ok t
    | none => .error (.invalidOption collection name "type" .missing)
  let type ← match FieldType.declare typeName d.target? with
    | .ok t => .ok t
    | .error .unknown => .error (.unknownType collection name typeName)
    | .error (.option p) => .error (.invalidOption collection name "to" p)
  let field : Field := ⟨collection, name, type, d.required, d.default, d.constraints, d.onDelete,
    d.equalFields, d.calculated⟩
  match d.default with
  | none => .ok field
  | some v =>
    match field.validate v with
    | .ok () => .ok field
    | .error e => .error (.invalidOption collection name "default" (.badDefault v e))

/-- The field that a declaration describes. -/
def ofYaml (collection name : String) (declaration : Yaml) : Except RegistryError Field :=
  match declaration with
  | .mapping options => do
    ofDraft collection name (← options.foldlM (readOption collection name) {})
  | _ => .error (.invalidOption collection name "type" .notAMapping)

end Field

namespace Collection

/-- The collection that a list of declarations describes. It has to declare an id. -/
def ofYaml (name : String) (declarations : Yaml) : Except RegistryError Collection :=
  match declarations with
  | .mapping entries => do
    let fields ← entries.mapM fun e =>
      match e.1.string? with
      | none => .error (.malformed (.fieldKey name))
      | some field => Field.ofYaml name field e.2
    if fields.any (·.name == "id") then .ok ⟨name, fields⟩ else .error (.malformed (.noId name))
  | _ => .error (.malformed (.fieldList name))

/-- The collection that an entry of a document declares; names that start with an underscore
are reserved. -/
def ofEntry (entry : Yaml × Yaml) : Except RegistryError (Option Collection) :=
  match entry.1.string? with
  | none => .error (.malformed (.collectionKey entry.1))
  | some name =>
    if name.toList.head? == some '_' then .ok none
    else if !isCollectionName name then .error (.malformed (.collectionName name))
    else (ofYaml name entry.2).map some

end Collection

namespace Registry

def ofDocument : Yaml → Except RegistryError Registry
  | .mapping entries => do
    ofCollections ((← entries.mapM Collection.ofEntry).filterMap id)
  | _ => .error (.malformed .topLevel)

/-- The registry that a text describes. -/
def ofText (text : String) : Except RegistryError Registry :=
  match Yaml.parse? text with
  | none => .error .notYaml
  | some document => ofDocument document

end Registry

end MeetingLedger.Schema
