import MeetingLedger.Pattern.Reader
import MeetingLedger.Schema.Registry

/-! # Short forms for declarations of collections and fields -/

namespace MeetingLedger.Schema

namespace Field

/-- A field of a collection that is filled in when the collection is declared. -/
def ofType (name : String) (type : FieldType) : Field := { collection := "", name, type }

def plain (name : String) (s : ScalarType) : Field := ofType name (.scalar s)

def plains (name : String) (s : ScalarType) : Field := ofType name (.array s)

def one (name collection back : String) : Field := ofType name (.relation ⟨collection, back⟩)

def many (name collection back : String) : Field := ofType name (.relationList ⟨collection, back⟩)

def oneOf (name : String) (targets : List (String × String)) : Field :=
  ofType name (.genericRelation (targets.map fun t => ⟨t.1, t.2⟩))

def manyOf (name : String) (targets : List (String × String)) : Field :=
  ofType name (.genericRelationList (targets.map fun t => ⟨t.1, t.2⟩))

def needed (f : Field) : Field := { f with required := true }

def derived (f : Field) : Field := { f with calculated := true }

def cascading (f : Field) : Field := { f with onDelete := .cascade }

def protecting (f : Field) : Field := { f with onDelete := .protect }

def agreeing (f : Field) (names : List String) : Field := { f with equalFields := names }

def withDefault (f : Field) (v : Json) : Field := { f with default := some v }

def allowing (f : Field) (values : List String) : Field :=
  { f with constraints := { f.constraints with allowed := some (values.map .string) } }

/-- A least value of `digits * 10 ^ exponent`. -/
def atLeast (f : Field) (digits : Nat) (exponent : Int) : Field :=
  { f with constraints :=
      { f.constraints with minimum := some (.ofDecimal false digits exponent) } }

def atMostLong (f : Field) (length : Nat) : Field :=
  { f with constraints := { f.constraints with maxLength := some length } }

def matching (f : Field) (pattern : String) : Field :=
  { f with constraints := { f.constraints with pattern := Pattern.parse? pattern } }

end Field

def Collection.declare (name : String) (fields : List Field) : Collection :=
  ⟨name, fields.map fun f => { f with collection := name }⟩

end MeetingLedger.Schema
