import MeetingLedger.Markup.Policy
import MeetingLedger.Text.Character

/-!
# Attributes of a tag

Each attribute is a piece of the text between the name of the tag and its closing bracket; the
pieces are disjoint and only blanks and slashes stand between them.
-/

namespace MeetingLedger.Markup

/-- An attribute: its name in lowercase, its value without quotes and the text it was read from. -/
structure Attribute where
  name : String
  value : Option (List Char)
  source : List Char

namespace Attribute

def raw (a : Attribute) : List Char := trimEnd a.source

/-- Whether following the attribute runs no script. -/
def isSafe (a : Attribute) : Bool :=
  if a.name == "href" || a.name == "src" then
    match a.value with
    | none => true
    | some v =>
      let v := (trimStart v).map Char.toLower
      !("javascript:".toList.isPrefixOf v || "vbscript:".toList.isPrefixOf v)
  else true

def isGap (c : Char) : Bool := isAsciiBlank c || c == '/'

def isNameChar (c : Char) : Bool := !isGap c && c != '='

/-- The text up to a quote and the text after it; all of the text if the quote does not occur. -/
def quotedValue (quote : Char) (cs : List Char) : List Char × List Char :=
  (cs.takeWhile (· != quote), (cs.dropWhile (· != quote)).drop 1)

def takeValue : List Char → List Char × List Char
  | '"' :: cs => quotedValue '"' cs
  | '\'' :: cs => quotedValue '\'' cs
  | cs => (cs.takeWhile (!isAsciiBlank ·), cs.dropWhile (!isAsciiBlank ·))

/-- The value and the rest of a text that starts right behind a name: there is a value if an
equals sign follows, with or without blanks before it. -/
def takeAssignment (cs : List Char) : Option (List Char) × List Char :=
  match cs.dropWhile isAsciiBlank with
  | '=' :: rest =>
    let (v, rest) := takeValue (rest.dropWhile isAsciiBlank)
    (some v, rest)
  | _ => (none, cs)

/-- The attribute at the front of a text and the rest of the text. -/
def take (cs : List Char) : Attribute × List Char :=
  let name := cs.takeWhile isNameChar
  let (value, rest) := takeAssignment (cs.dropWhile isNameChar)
  (⟨String.ofList (name.map Char.toLower), value, cs.take (cs.length - rest.length)⟩, rest)

theorem length_dropWhile_le {α : Type} (p : α → Bool) (cs : List α) :
    (cs.dropWhile p).length ≤ cs.length :=
  (List.dropWhile_sublist p).length_le

theorem length_takeValue_le (cs : List Char) : (takeValue cs).2.length ≤ cs.length := by
  unfold takeValue quotedValue
  split
  · have := length_dropWhile_le (· != '"') ‹List Char›
    simp only [List.length_drop, List.length_cons]; omega
  · have := length_dropWhile_le (· != '\'') ‹List Char›
    simp only [List.length_drop, List.length_cons]; omega
  · exact length_dropWhile_le _ _

theorem length_takeAssignment_le (cs : List Char) : (takeAssignment cs).2.length ≤ cs.length := by
  unfold takeAssignment
  split
  · rename_i rest heq
    have h1 := length_takeValue_le (rest.dropWhile isAsciiBlank)
    have h2 := length_dropWhile_le isAsciiBlank rest
    have h3 := length_dropWhile_le isAsciiBlank cs
    simp only [heq, List.length_cons] at h3
    simp only
    omega
  · exact Nat.le_refl _

/-- An attribute is never empty: it starts with a character of its name or an equals sign. -/
theorem length_take_lt {c : Char} (cs : List Char) (h : isGap c = false) :
    (take (c :: cs)).2.length < (c :: cs).length := by
  simp only [take]
  by_cases hc : c = '='
  · subst hc
    have hn : ('=' :: cs).dropWhile isNameChar = '=' :: cs := List.dropWhile_cons_of_neg (by decide)
    have hb : ('=' :: cs).dropWhile isAsciiBlank = '=' :: cs :=
      List.dropWhile_cons_of_neg (by decide)
    have h1 := length_takeValue_le (cs.dropWhile isAsciiBlank)
    have h2 := length_dropWhile_le isAsciiBlank cs
    rw [hn, takeAssignment, hb]
    simp only [List.length_cons]
    omega
  · have hn : isNameChar c = true := by simp [isNameChar, h, hc]
    have h1 := length_takeAssignment_le (cs.dropWhile isNameChar)
    have h2 := length_dropWhile_le isNameChar cs
    simp only [List.dropWhile_cons, hn, if_true, List.length_cons]
    omega

end Attribute

/-- The attributes in a text, in order. -/
def attributes : List Char → List Attribute
  | [] => []
  | c :: cs =>
    if h : Attribute.isGap c then attributes cs
    else
      have := Attribute.length_take_lt cs (by simpa using h)
      (Attribute.take (c :: cs)).1 :: attributes (Attribute.take (c :: cs)).2
termination_by cs => cs.length
decreasing_by
  · exact Nat.lt_succ_self _
  · exact this

end MeetingLedger.Markup
