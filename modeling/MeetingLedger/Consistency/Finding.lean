import MeetingLedger.Consistency.Config
import MeetingLedger.Dataset.Visibility
import MeetingLedger.Schema.Value

/-! # What a check finds wrong with a snapshot, and the line that reports it -/

namespace MeetingLedger.Consistency

inductive RelationProblem where
  | notAllowed (collection : String) (allowed : List String)
  | outsideMeeting (target : Fqid)
  | notFound (target : Fqid)
  | notReversed (target : Fqid) (field : String)
  | differs (field : String) (target : Fqid) (ours theirs : Option Json)

inductive MotionProblem where
  | notParagraphs
  | paragraphKey (key : String)
  | paragraphMarkup (key : String)
  | paragraphNotText (key : String)
  | reference (raw : String)
  | notAMotion (target : Fqid)
  | motionNotFound (target : Fqid)

inductive FieldProblem where
  | requiredEmpty
  | value (e : Schema.FieldError)
  | relation (p : RelationProblem)
  | motion (p : MotionProblem)
  | visibility (p : VisibilityProblem)

/-- What is wrong with a snapshot. -/
inductive Finding where
  | shape (p : ShapeProblem)
  | noIndex
  | otherIndex (found backend : UInt64)
  | newerIndex (found backend : UInt64)
  | unknownCollection (name : String)
  | collectionNotAllowed (name : String) (mode : Mode)
  | missingFields (model : Fqid) (fields : List String)
  | unknownFields (model : Fqid) (fields : List String)
  | field (model : Fqid) (field : String) (p : FieldProblem)

def optionalText : Option Json → String
  | none => "None"
  | some v => v.compact

def notFoundMessage (target : Fqid) : String :=
  s!"Relation Error: points to {target}, but the model was not found"

def RelationProblem.message : RelationProblem → String
  | notAllowed collection allowed =>
    s!"Relation Error: collection {collection} is not allowed, expected one of [" ++
      ", ".intercalate allowed ++ "]"
  | outsideMeeting target =>
    s!"Relation Error: points to {target}, which is outside of the meeting"
  | notFound target => notFoundMessage target
  | notReversed target field =>
    s!"Relation Error: points to {target.field field}, " ++
      "but the reverse relation for it is corrupt"
  | differs field target ours theirs =>
    s!"Relation Error: {field} differs from {target}: " ++
      s!"{optionalText ours} != {optionalText theirs}"

def MotionProblem.message : MotionProblem → String
  | notParagraphs => "Type error: Can't parse to a paragraph mapping"
  | paragraphKey key => s!"Invalid paragraph key '{key}'"
  | paragraphMarkup key => s!"Invalid html in paragraph {key}"
  | paragraphNotText key => s!"Paragraph {key} must be a string"
  | reference raw => s!"Invalid reference [{raw}]"
  | notAMotion target => s!"Relation Error: {target} is not a motion"
  | motionNotFound target => notFoundMessage target

def FieldProblem.message : FieldProblem → String
  | requiredEmpty => "Field required but empty."
  | value e => e.message
  | relation p => p.message
  | motion p => p.message
  | visibility p => p.message

/-- The line that reports a finding: the place, a colon and the problem. -/
def Finding.line : Finding → String
  | shape p => p.message
  | noIndex => s!"{migrationIndexKey}: Missing migration index"
  | otherIndex found backend =>
    s!"{migrationIndexKey}: Datastore has not the correct migration index: " ++
      s!"{found.toNat} instead of {backend.toNat}"
  | newerIndex found backend =>
    s!"{migrationIndexKey}: Datastore has a higher migration index than the backend: " ++
      s!"{found.toNat} > {backend.toNat}"
  | unknownCollection name => s!"{name}: Unknown collection"
  | collectionNotAllowed name mode =>
    s!"{name}: Collection is not allowed in mode {mode.name}"
  | missingFields model fields => s!"{model}: Missing fields: " ++ ", ".intercalate fields
  | unknownFields model fields => s!"{model}: Invalid fields: " ++ ", ".intercalate fields
  | field model name p => s!"{model.field name}: {p.message}"

def report (findings : List Finding) : String :=
  "\n\t".intercalate (findings.map Finding.line)

end MeetingLedger.Consistency
