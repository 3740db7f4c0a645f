import MeetingLedger.Arithmetic.Numeral
import MeetingLedger.Json.Writer
import MeetingLedger.Markup.Sanitize
import MeetingLedger.Pattern.Basic

/-!
# Declarations of fields

What a field holds, where it points and what else its values have to satisfy.
-/

namespace MeetingLedger.Schema

inductive ScalarType where
  /-- A short text. -/
  | string
  | text
  /-- An integer. -/
  | number
  /-- Any number. -/
  | float
  /-- A decimal with six places, kept as text. -/
  | decimal
  | boolean
  /-- Seconds since the epoch. -/
  | timestamp
  /-- A color in lowercase hexadecimal notation. -/
  | color
  | html (policy : Markup.Policy)
  /-- Any list or object. -/
  | json
deriving DecidableEq

namespace ScalarType

/-- How long a short text may be unless its field says otherwise. -/
def stringMaxLength : Nat := 256

def name : ScalarType → String
  | string => "string"
  | text => "text"
  | number => "number"
  | float => "float"
  | decimal => "decimal(6)"
  | boolean => "boolean"
  | timestamp => "timestamp"
  | color => "color"
  | html policy => policy.name
  | json => "JSON"

def all : List ScalarType :=
  [string, text, number, float, decimal, boolean, timestamp, color, html .strict,
    html .permissive, json]

def ofName? (s : String) : Option ScalarType :=
  if s == "decimal" then some decimal else all.find? (·.name == s)

end ScalarType

/-- The other end of a relation: the collection and the field there that points back. -/
structure Target where
  collection : String
  field : String
deriving DecidableEq

def Target.text (t : Target) : String := t.collection ++ "/" ++ t.field

/-- What a field holds: plain values, ids in one collection, or full names of models in several
collections. -/
inductive FieldType where
  | scalar (s : ScalarType)
  | array (s : ScalarType)
  | relation (target : Target)
  | relationList (target : Target)
  | genericRelation (targets : List Target)
  | genericRelationList (targets : List Target)
deriving DecidableEq

namespace FieldType

def name : FieldType → String
  | scalar s => s.name
  | array s => s.name ++ "[]"
  | relation _ => "relation"
  | relationList _ => "relation-list"
  | genericRelation _ => "generic-relation"
  | genericRelationList _ => "generic-relation-list"

def scalar? : FieldType → Option ScalarType
  | scalar s | array s => some s
  | _ => none

def isRelation : FieldType → Bool
  | scalar _ | array _ => false
  | _ => true

def isList : FieldType → Bool
  | array _ | relationList _ | genericRelationList _ => true
  | _ => false

def isGeneric : FieldType → Bool
  | genericRelation _ | genericRelationList _ => true
  | _ => false

def targets : FieldType → List Target
  | scalar _ | array _ => []
  | relation t | relationList t => [t]
  | genericRelation ts | genericRelationList ts => ts

def targetFor? (type : FieldType) (collection : String) : Option Target :=
  type.targets.find? (·.collection == collection)

end FieldType

/-- What becomes of a model that refers to a deleted one. -/
inductive OnDelete where
  | setNull
  | cascade
  | protect
deriving DecidableEq

namespace OnDelete

def name : OnDelete → String
  | setNull => "SET_NULL"
  | cascade => "CASCADE"
  | protect => "PROTECT"

def ofName? (s : String) : Option OnDelete := [setNull, cascade, protect].find? (·.name == s)

end OnDelete

/-- What the values of a field have to satisfy besides its type. -/
structure Constraints where
  /-- The allowed values; every item of a list has to be one of them. -/
  allowed : Option (List Json) := none
  minimum : Option Real64 := none
  maximum : Option Real64 := none
  minLength : Option Nat := none
  maxLength : Option Nat := none
  pattern : Option Pattern := none

def Constraints.allows (c : Constraints) (v : Json) : Bool :=
  c.allowed.all fun values => values.contains v

structure Field where
  collection : String
  name : String
  type : FieldType
  required : Bool := false
  default : Option Json := none
  constraints : Constraints := {}
  onDelete : OnDelete := .setNull
  /-- Fields that have the same value on both ends of the relation. -/
  equalFields : List String := []
  /-- Whether the value follows from other fields. -/
  calculated : Bool := false

namespace Field

def qualifiedName (f : Field) : String := f.collection ++ "/" ++ f.name

/-- Required fields and fields with a default are there in every instance. -/
def mustBePresent (f : Field) : Bool := f.required || f.default.isSome

end Field

end MeetingLedger.Schema
