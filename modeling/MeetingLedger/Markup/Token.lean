import MeetingLedger.Markup.Attribute

/-!
# Tokens of a formatted text

A formatted text is read as a sequence of tokens, which do not depend on what is allowed.
-/

namespace MeetingLedger.Markup

/-- A tag or a comment without an end; the number is the byte at which it starts. -/
inductive MarkupError where
  | unterminatedTag (start : Nat)
  | unterminatedComment (start : Nat)
deriving DecidableEq

def MarkupError.message : MarkupError → String
  | unterminatedTag start => s!"unterminated tag starting at byte {start}"
  | unterminatedComment start => s!"unterminated comment starting at byte {start}"

inductive Token where
  /-- A character other than an opening bracket. -/
  | plain (c : Char)
  /-- An opening bracket that starts no tag. -/
  | bracket
  /-- A closing tag, without its brackets and its slash. -/
  | closing (body : List Char)
  /-- An opening tag, without its brackets. -/
  | opening (body : List Char)
  /-- A comment or a declaration, or a script with its content. -/
  | dropped

def tagName (body : List Char) : String :=
  String.ofList ((body.takeWhile fun c => isAsciiLetter c || isAsciiDigit c).map Char.toLower)

namespace Token

/-- The text before the bracket that ends an opening tag, and the text after it. A bracket in
quotes does not end the tag. -/
def splitTag : Option Char → List Char → Option (List Char × List Char)
  | _, [] => none
  | some q, c :: cs =>
    (splitTag (if c = q then none else some q) cs).map fun (a, b) => (c :: a, b)
  | none, c :: cs =>
    if c = '>' then some ([], cs)
    else
      (splitTag (if c = '"' || c = '\'' then some c else none) cs).map fun (a, b) => (c :: a, b)

def afterFirst (c : Char) (cs : List Char) : List Char := (cs.dropWhile (· != c)).drop 1

/-- The text after the first end of a comment. -/
def afterComment? : List Char → Option (List Char)
  | '-' :: '-' :: '>' :: cs => some cs
  | _ :: cs => afterComment? cs
  | [] => none

/-- The text behind the closing tag of an element, all of it dropped if there is none. The
closing tag is found by how it begins. -/
def afterElement (name : List Char) : List Char → List Char
  | [] => []
  | c :: cs =>
    if ('<' :: '/' :: name).isPrefixOf ((c :: cs).map Char.toLower) then afterFirst '>' (c :: cs)
    else afterElement name cs

def byteLength : List Char → Nat
  | [] => 0
  | c :: cs => c.utf8Size + byteLength cs

/-- The token that an opening bracket starts, given the text after the bracket and how many
bytes stand in front of it. -/
def afterBracket (start : Nat) (cs : List Char) : Except MarkupError (Token × List Char) :=
  match cs with
  | '!' :: '-' :: '-' :: cs =>
    match afterComment? cs with
    | some rest => .ok (dropped, rest)
    | none => .error (.unterminatedComment start)
  | '!' :: cs | '?' :: cs =>
    match splitAtFirst '>' cs with
    | some (_, rest) => .ok (dropped, rest)
    | none => .error (.unterminatedTag start)
  | '/' :: c :: cs =>
    if isAsciiLetter c then
      match splitAtFirst '>' (c :: cs) with
      | some (body, rest) => .ok (closing body, rest)
      | none => .error (.unterminatedTag start)
    else .ok (bracket, '/' :: c :: cs)
  | c :: cs =>
    if isAsciiLetter c then
      match splitTag none (c :: cs) with
      | some (body, rest) =>
        if scriptTags.contains (tagName body) then
          .ok (dropped, afterElement (tagName body).toList rest)
        else .ok (opening body, rest)
      | none => .error (.unterminatedTag start)
    else .ok (bracket, c :: cs)
  | [] => .ok (bracket, [])

theorem length_splitTag {q : Option Char} {cs a b : List Char} (h : splitTag q cs = some (a, b)) :
    b.length < cs.length := by
  induction cs generalizing q a with
  | nil => cases q <;> simp [splitTag] at h
  | cons c cs ih =>
    cases q with
    | none =>
      rw [splitTag] at h
      split at h
      · simp_all
      · simp only [Option.map_eq_some_iff, Prod.mk.injEq, Prod.exists] at h
        obtain ⟨a', b', h', rfl, rfl⟩ := h
        have := ih h'
        simp only [List.length_cons]; omega
    | some q =>
      rw [splitTag] at h
      simp only [Option.map_eq_some_iff, Prod.mk.injEq, Prod.exists] at h
      obtain ⟨a', b', h', rfl, rfl⟩ := h
      have := ih h'
      simp only [List.length_cons]; omega

theorem length_splitAtFirst {c : Char} {cs a b : List Char}
    (h : splitAtFirst c cs = some (a, b)) : b.length < cs.length := by
  induction cs generalizing a with
  | nil => simp [splitAtFirst] at h
  | cons d cs ih =>
    rw [splitAtFirst] at h
    split at h
    · simp_all
    · simp only [Option.map_eq_some_iff, Prod.mk.injEq, Prod.exists] at h
      obtain ⟨a', b', h', rfl, rfl⟩ := h
      have := ih h'
      simp only [List.length_cons]; omega

theorem length_afterComment {cs rest : List Char} (h : afterComment? cs = some rest) :
    rest.length < cs.length := by
  fun_induction afterComment? cs with
  | case1 cs => simp_all; omega
  | case2 c cs _ ih =>
    have := ih h
    simp only [List.length_cons]; omega
  | case3 => simp at h

theorem length_afterElement_le (name cs : List Char) :
    (afterElement name cs).length ≤ cs.length := by
  induction cs with
  | nil => simp [afterElement]
  | cons c cs ih =>
    rw [afterElement]
    split
    · have := Attribute.length_dropWhile_le (· != '>') (c :: cs)
      simp only [afterFirst, List.length_drop]; omega
    · simp only [List.length_cons]; omega

theorem length_afterBracket {start : Nat} {cs rest : List Char} {t : Token}
    (h : afterBracket start cs = .ok (t, rest)) : rest.length ≤ cs.length := by
  unfold afterBracket at h
  split at h
  · split at h <;> simp_all
    have := length_afterComment ‹_›; omega
  · split at h <;> simp_all
    have := length_splitAtFirst ‹_›; omega
  · split at h <;> simp_all
    have := length_splitAtFirst ‹_›; omega
  · split at h
    · split at h <;> simp_all
      have := length_splitAtFirst ‹_›
      simp only [List.length_cons] at this; omega
    · simp_all
  · split at h
    · split at h
      · rename_i body rest' hs
        have h1 := length_splitTag hs
        have h2 := length_afterElement_le (tagName body).toList rest'
        simp only [List.length_cons] at h1 ⊢
        split at h <;> simp_all <;> omega
      · simp at h
    · simp_all
  · simp_all

end Token

/-- The tokens of a text of which `total` bytes were left when the first was read. -/
def scan (total : Nat) : List Char → Except MarkupError (List Token)
  | [] => .ok []
  | c :: cs =>
    if c = '<' then
      match h : Token.afterBracket (total - Token.byteLength (c :: cs)) cs with
      | .error e => .error e
      | .ok (t, rest) =>
        have := Token.length_afterBracket h
        (scan total rest).map (t :: ·)
    else (scan total cs).map (Token.plain c :: ·)
termination_by cs => cs.length

def tokens (cs : List Char) : Except MarkupError (List Token) := scan (Token.byteLength cs) cs

end MeetingLedger.Markup
