import MeetingLedger.Consistency.Finding
import MeetingLedger.Markup.Sanitize

/-!
# Texts of motions

What the texts of motions have to satisfy beyond the types of their fields. Amendments map numbers
of paragraphs to formatted texts, and extensions name other motions between brackets.
-/

namespace MeetingLedger.Consistency

/-- The longest nonempty piece at the start of a text whose characters pass a test. -/
def takeSome? (p : Char → Bool) (cs : List Char) : Option (List Char × List Char) :=
  if (cs.takeWhile p).isEmpty then none else some (cs.takeWhile p, cs.dropWhile p)

/-- The text between an opening bracket, behind which the scan stands, and the closing one, if it
reads like the name of a model: letters and underscores, a slash and digits of any script. -/
def bracketed? (cs : List Char) : Option String := do
  let (name, cs) ← takeSome? (fun c => isAsciiLower c || c == '_') cs
  let cs ← dropLiteral? ['/'] cs
  let (digits, cs) ← takeSome? isDecimalDigit cs
  let _ ← dropLiteral? [']'] cs
  some (String.ofList (name ++ '/' :: digits))

/-- All names between brackets in a text. No bracket occurs within a name, so none is read
twice. -/
def bracketedNames : List Char → List String
  | [] => []
  | '[' :: cs => (bracketed? cs).toList ++ bracketedNames cs
  | _ :: cs => bracketedNames cs

/-- What is wrong with a name between brackets. -/
def nameProblem? (s : Snapshot) (raw : String) : Option MotionProblem :=
  match Fqid.parse? raw with
  | none => some (.reference raw)
  | some model =>
    if model.collection ≠ "motion" then some (.notAMotion model)
    else if (s.get? model).isSome then none
    else some (.motionNotFound model)

def extensionProblems (s : Snapshot) (text : String) : List MotionProblem :=
  (bracketedNames text.toList).filterMap (nameProblem? s)

def paragraphProblem? (paragraph : String × Json) : Option MotionProblem :=
  let key := paragraph.1
  if key.isEmpty || !key.toList.all isAsciiDigit then some (.paragraphKey key)
  else
    match paragraph.2 with
    | .string html =>
      if Markup.isSanitized .strict html then none else some (.paragraphMarkup key)
    | _ => some (.paragraphNotText key)

def amendmentProblems : Json → List MotionProblem
  | .null => []
  | .object paragraphs => paragraphs.filterMap paragraphProblem?
  | _ => [.notParagraphs]

def extensionFields : List String := ["recommendation_extension", "state_extension"]

def motionProblems (s : Snapshot) (motion : Instance) : List (String × MotionProblem) :=
  let amendments := ((motion.get? "amendment_paragraphs").map amendmentProblems).getD []
  amendments.map ("amendment_paragraphs", ·) ++
    extensionFields.flatMap fun field =>
      match motion.get? field with
      | some (.string text) => (extensionProblems s text).map (field, ·)
      | _ => []

end MeetingLedger.Consistency
