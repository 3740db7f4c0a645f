import MeetingLedger.Text.Word

/-! # Regular expressions and the texts in which they occur -/

namespace MeetingLedger.Pattern

inductive CharSet where
  | none
  | range (first last : Char)
  | digit
  | blank
  | word
  | union (a b : CharSet)
  | inter (a b : CharSet)
  | compl (a : CharSet)
  /-- The set together with the other case of its basic Latin letters. -/
  | anyCase (a : CharSet)
deriving DecidableEq

def otherCase (c : Char) : Char := if isAsciiLower c then c.toUpper else c.toLower

def CharSet.has : CharSet → Char → Bool
  | none, _ => false
  | range first last, c => first ≤ c && c ≤ last
  | digit, c => isDecimalDigit c
  | blank, c => isBlank c
  | word, c => isWordChar c
  | union a b, c => a.has c || b.has c
  | inter a b, c => a.has c && b.has c
  | compl a, c => !a.has c
  | anyCase a, c => a.has c || a.has (otherCase c)

inductive Anchor where
  | textStart
  | textEnd
  | lineStart
  | lineEnd
  | wordEdge
  | noWordEdge
deriving DecidableEq

inductive Expr where
  | empty
  | set (s : CharSet)
  | anchor (a : Anchor)
  | seq (a b : Expr)
  | alt (a b : Expr)
  /-- The least number of times and how many times more, `none` for any number. -/
  | times (e : Expr) (least : Nat) (more : Option Nat)
deriving DecidableEq

/-- A place in a text: the character before it, the text after it and how much text that is. -/
structure Place where
  before : Option Char
  after : List Char
  left : Nat

namespace Place

def atStart (before : Option Char) (after : List Char) : Place := ⟨before, after, after.length⟩

/-- Places in one text are told apart by how much text follows. -/
def isAmong (places : List Place) (p : Place) : Bool := places.any (·.left == p.left)

def insertNew (places : List Place) (p : Place) : List Place :=
  if isAmong places p then places else p :: places

def union (a b : List Place) : List Place := b.foldl insertNew a

def next (step : Place → List Place) (places : List Place) : List Place :=
  places.foldl (fun found p => union found (step p)) []

end Place

def Anchor.holdsAt (p : Place) : Anchor → Bool
  | textStart => p.before.isNone
  | textEnd => p.after.isEmpty
  | lineStart => p.before.all (· == '\n')
  | lineEnd => p.after.head?.all (· == '\n')
  | wordEdge => p.before.any isWordChar != p.after.head?.any isWordChar
  | noWordEdge => p.before.any isWordChar == p.after.head?.any isWordChar

def exactly (step : Place → List Place) : Nat → List Place → List Place
  | 0, places => places
  | n + 1, places => exactly step n (Place.next step places)

/-- The places reached from the newest of some places by a step taken at most so many times, and
all those places. -/
def atMost (step : Place → List Place) : Nat → (newest places : List Place) → List Place
  | 0, _, places => places
  | n + 1, newest, places =>
    let found := (Place.next step newest).filter fun p => !Place.isAmong places p
    if found.isEmpty then places else atMost step n found (found ++ places)

/-- The places where a match that begins at a place can end. -/
def Expr.ends : Expr → Place → List Place
  | empty, p => [p]
  | set s, p =>
    match p.after with
    | [] => []
    | c :: rest => if s.has c then [⟨some c, rest, p.left - 1⟩] else []
  | anchor a, p => if a.holdsAt p then [p] else []
  | seq a b, p => Place.next b.ends (a.ends p)
  | alt a b, p => Place.union (a.ends p) (b.ends p)
  | times e least more, p =>
    let bound := match more with
      | some n => min n (p.left + 1)
      | none => p.left + 1
    let first := exactly e.ends least [p]
    atMost e.ends bound first first

def Expr.occursFrom (e : Expr) : Option Char → List Char → Bool
  | before, [] => !(e.ends (.atStart before [])).isEmpty
  | before, c :: cs => !(e.ends (.atStart before (c :: cs))).isEmpty || e.occursFrom (some c) cs

end Pattern

structure Pattern where
  source : String
  expr : Pattern.Expr
deriving DecidableEq

/-- Whether the expression matches a part of a text. -/
def Pattern.occursIn (p : Pattern) (text : String) : Bool := p.expr.occursFrom none text.toList

end MeetingLedger
