import MeetingLedger.Fqid
import MeetingLedger.Schema.Field

/-!
# Values of fields

Which values a field accepts. A value is checked against the type of the field first and then
against its constraints.
-/

namespace MeetingLedger.Schema

/-- Why a value does not fit its field. -/
inductive FieldError where
  | type (expected : FieldType)
  | notAllowed (value : Json)
  | belowMinimum (value : Json) (minimum : Real64)
  | aboveMaximum (value : Json) (maximum : Real64)
  | tooShort (length minLength : Nat)
  | tooLong (length maxLength : Nat)
  | noMatch (text : String) (pattern : Pattern)
  | requiredEmpty
  | markup (e : Markup.MarkupError)
  | unsanitized (policy : Markup.Policy)

def FieldError.message : FieldError → String
  | type expected => "Type error: Can't parse to " ++ expected.name
  | notAllowed value => s!"Value error: Value {value.display} is not a valid enum value"
  | belowMinimum value minimum =>
    s!"Value error: {value.display} is smaller than the minimum {minimum.text}"
  | aboveMaximum value maximum =>
    s!"Value error: {value.display} is greater than the maximum {maximum.text}"
  | tooShort length minLength => s!"Value error: length {length} is shorter than {minLength}"
  | tooLong length maxLength => s!"Value error: length {length} exceeds {maxLength}"
  | noMatch text pattern => s!"Value error: '{text}' does not match {pattern.source}"
  | requiredEmpty => "Field required but empty."
  | markup e => "Invalid html: " ++ e.message
  | unsanitized policy => "Invalid html: value is not sanitized for " ++ policy.name

/-- An optional minus, one digit or several without a leading zero, a point and six digits. The
digits may be those of any script. -/
def isDecimal (s : String) : Bool :=
  let body := match s.toList with
    | '-' :: cs => cs
    | cs => cs
  match splitAtFirst '.' body with
  | none => false
  | some (whole, places) =>
    whole.all isDecimalDigit && places.all isDecimalDigit && places.length == 6 &&
      (whole.length == 1 || (2 ≤ whole.length && whole.head?.any fun c => '1' ≤ c && c ≤ '9'))

/-- A number sign and six lowercase hexadecimal digits. -/
def isColor (s : String) : Bool :=
  match s.toList with
  | '#' :: cs => cs.length == 6 && cs.all fun c => isAsciiDigit c || ('a' ≤ c && c ≤ 'f')
  | _ => false

def ScalarType.accepts : ScalarType → Json → Bool
  | string, .string _ | text, .string _ | html _, .string _ => true
  | number, .number (.whole _) | timestamp, .number (.whole _) => true
  | float, .number _ => true
  | decimal, .string s => isDecimal s
  | boolean, .boolean _ => true
  | color, .string s => isColor s
  | json, .array _ | json, .object _ => true
  | _, _ => false

def isId (v : Json) : Bool := v.id?.any (0 < ·)

def isFqid (v : Json) : Bool := (v.string?.bind Fqid.parse?).isSome

namespace FieldType

/-- Whether a value other than `null` is of a type. -/
def accepts : FieldType → Json → Bool
  | scalar s, v => s.accepts v
  | array s, v => v.array?.any fun items => items.all s.accepts
  | relation _, v => isId v
  | relationList _, v => v.array?.any fun items => items.all isId
  | genericRelation _, v => isFqid v
  | genericRelationList _, v => v.array?.any fun items => items.all isFqid

def check (type : FieldType) (v : Json) : Except FieldError Unit :=
  if type.accepts v then .ok () else .error (.type type)

end FieldType

def ScalarType.numeric? : ScalarType → Json → Option Real64
  | decimal, .string s => Real64.read? s.toList
  | number, .number n | float, .number n | timestamp, .number n => some n.toReal
  | _, _ => none

namespace Constraints

def checkRange (c : Constraints) (v : Json) (x : Real64) : Except FieldError Unit :=
  match c.minimum.filter (x.lt ·), c.maximum.filter (·.lt x) with
  | some least, _ => .error (.belowMinimum v least)
  | none, some most => .error (.aboveMaximum v most)
  | none, none => .ok ()

def longest (c : Constraints) (s : ScalarType) : Option Nat :=
  c.maxLength.or (if s = .string then some ScalarType.stringMaxLength else none)

def checkText (c : Constraints) (s : ScalarType) (text : String) : Except FieldError Unit :=
  match (c.longest s).filter (· < text.length), c.minLength.filter (text.length < ·),
    c.pattern.filter (!·.occursIn text) with
  | some most, _, _ => .error (.tooLong text.length most)
  | none, some least, _ => .error (.tooShort text.length least)
  | none, none, some pattern => .error (.noMatch text pattern)
  | none, none, none => .ok ()

end Constraints

def checkMarkup : ScalarType → String → Except FieldError Unit
  | .html policy, text =>
    match Markup.sanitize policy text with
    | .error e => .error (.markup e)
    | .ok out => if out = text then .ok () else .error (.unsanitized policy)
  | _, _ => .ok ()

def checkScalar (c : Constraints) (s : ScalarType) (v : Json) : Except FieldError Unit := do
  match s.numeric? v with
  | some x => c.checkRange v x
  | none => .ok ()
  match v with
  | .string text =>
    c.checkText s text
    checkMarkup s text
  | _ => .ok ()

namespace Field

/-- Checks a value that is of the type of the field against its constraints. Of the constraints
only the allowed values concern lists, and none concerns relations. -/
def checkConstraints (f : Field) (v : Json) : Except FieldError Unit :=
  match f.type, v with
  | .array _, .array items =>
    match items.find? (!f.constraints.allows ·) with
    | some bad => .error (.notAllowed bad)
    | none => .ok ()
  | .scalar s, v =>
    if f.constraints.allows v then checkScalar f.constraints s v else .error (.notAllowed v)
  | _, _ => .ok ()

/-- Checks any value: `null` fits every field that is not required. -/
def validate (f : Field) (v : Json) : Except FieldError Unit :=
  if v.isNull then
    if f.required then .error .requiredEmpty else .ok ()
  else do
    f.type.check v
    f.checkConstraints v

end Field

/-- `null`, the empty text and the empty list. -/
def isEmptyValue : Json → Bool
  | .null => true
  | .string s => s.isEmpty
  | .array items => items.isEmpty
  | _ => false

end MeetingLedger.Schema
