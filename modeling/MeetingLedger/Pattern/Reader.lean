import MeetingLedger.Pattern.Basic

/-! # Regular expressions from text -/

namespace MeetingLedger.Pattern.Reader

/-- How letters, lines, points and blanks in the text of an expression are taken. -/
structure Flags where
  anyCase : Bool := false
  multiLine : Bool := false
  dotAll : Bool := false
  spaced : Bool := false

def single (c : Char) : CharSet := .range c c

def unionAll (sets : List CharSet) : CharSet := sets.foldr .union .none

/-- The set that a set stands for when case does not count. -/
def Flags.apply (flags : Flags) (s : CharSet) : CharSet := if flags.anyCase then .anyCase s else s

def namedClass? : String → Option CharSet
  | "alnum" => some (unionAll [.range '0' '9', .range 'A' 'Z', .range 'a' 'z'])
  | "alpha" => some (unionAll [.range 'A' 'Z', .range 'a' 'z'])
  | "ascii" => some (.range '\x00' '\x7f')
  | "blank" => some (unionAll [single '\t', single ' '])
  | "cntrl" => some (unionAll [.range '\x00' '\x1f', single '\x7f'])
  | "digit" => some (.range '0' '9')
  | "graph" => some (.range '!' '~')
  | "lower" => some (.range 'a' 'z')
  | "print" => some (.range ' ' '~')
  | "punct" => some (unionAll [.range '!' '/', .range ':' '@', .range '[' '\x60',
      .range '\x7b' '~'])
  | "space" => some (unionAll [.range '\t' '\r', single ' '])
  | "upper" => some (.range 'A' 'Z')
  | "word" => some (unionAll [.range '0' '9', .range 'A' 'Z', single '_', .range 'a' 'z'])
  | "xdigit" => some (unionAll [.range '0' '9', .range 'A' 'F', .range 'a' 'f'])
  | _ => none

def charOfCode? (n : Nat) : Option Char :=
  if h : n.isValidChar then some (Char.ofNatAux n h) else none

def code (count : Nat) : List Char → Option (Char × List Char)
  | '\x7b' :: cs => do
    let (ds, rest) ← splitAtFirst '\x7d' cs
    if ds.isEmpty then none else (charOfCode? (← digits? 16 ds)).map (·, rest)
  | cs =>
    if cs.length < count then none
    else do (charOfCode? (← digits? 16 (cs.take count))).map (·, cs.drop count)

def escapedChar : List Char → Option (Char × List Char)
  | 'n' :: cs => some ('\n', cs)
  | 't' :: cs => some ('\t', cs)
  | 'r' :: cs => some ('\r', cs)
  | 'f' :: cs => some ('\x0c', cs)
  | 'v' :: cs => some ('\x0b', cs)
  | 'a' :: cs => some ('\x07', cs)
  | 'x' :: cs => code 2 cs
  | 'u' :: cs => code 4 cs
  | 'U' :: cs => code 8 cs
  | c :: cs =>
    if c.toNat < 128 && !isAsciiLetter c && !isAsciiDigit c && c != '<' && c != '>' then
      some (c, cs)
    else none
  | [] => none

def escapedClass : List Char → Option (CharSet × List Char)
  | 'd' :: cs => some (.digit, cs)
  | 'D' :: cs => some (.compl .digit, cs)
  | 's' :: cs => some (.blank, cs)
  | 'S' :: cs => some (.compl .blank, cs)
  | 'w' :: cs => some (.word, cs)
  | 'W' :: cs => some (.compl .word, cs)
  | _ => none

def escapedAnchor : List Char → Option (Anchor × List Char)
  | 'A' :: cs => some (.textStart, cs)
  | 'z' :: cs => some (.textEnd, cs)
  | 'b' :: cs => some (.wordEdge, cs)
  | 'B' :: cs => some (.noWordEdge, cs)
  | _ => none

def named (cs : List Char) : Option (CharSet × List Char) := do
  let (negated, cs) := match cs with
    | '^' :: cs => (true, cs)
    | cs => (false, cs)
  let (name, rest) ← splitAtFirst ':' cs
  match rest with
  | ']' :: rest =>
    (namedClass? (String.ofList name)).map fun s => (if negated then .compl s else s, rest)
  | _ => none

def rangeEnd : List Char → Option (Char × List Char)
  | '\\' :: cs => escapedChar cs
  | c :: cs => some (c, cs)
  | [] => none

def charOrRange (cs : List Char) : Option (CharSet × List Char) := do
  let (first, cs) ← rangeEnd cs
  match cs with
  | '-' :: ']' :: _ | '-' :: '-' :: _ => some (single first, cs)
  | '-' :: rest =>
    let (last, rest) ← rangeEnd rest
    if first ≤ last then some (.range first last, rest) else none
  | cs => some (single first, cs)

/-- How a bracketed class goes on after two equal signs of an operation. -/
inductive SetOperation where
  | inter
  | diff
  | symDiff

def SetOperation.apply (a b : CharSet) : SetOperation → CharSet
  | inter => .inter a b
  | diff => .inter a (.compl b)
  | symDiff => .union (.inter a (.compl b)) (.inter b (.compl a))

def setOperation? : List Char → Option (SetOperation × List Char)
  | '&' :: '&' :: cs => some (.inter, cs)
  | '-' :: '-' :: cs => some (.diff, cs)
  | '~' :: '~' :: cs => some (.symDiff, cs)
  | _ => none

mutual
/-- A bracketed class after its opening bracket. The first argument bounds the steps. -/
def bracket : Nat → List Char → Option (CharSet × List Char)
  | 0, _ => none
  | steps + 1, cs => do
    let (negated, cs) := match cs with
      | '^' :: cs => (true, cs)
      | cs => (false, cs)
    let (s, rest) ← match cs with
      | ']' :: cs => members steps (single ']') cs
      | '-' :: cs =>
        if cs.head? == some '-' then members steps .none ('-' :: cs)
        else members steps (single '-') cs
      | cs => members steps .none cs
    some (if negated then .compl s else s, rest)

def members : Nat → CharSet → List Char → Option (CharSet × List Char)
  | 0, _, _ => none
  | steps + 1, found, cs =>
    match setOperation? cs with
    | some (operation, cs) => do
      let (right, rest) ← operand steps .none cs
      members steps (operation.apply found right) rest
    | none =>
      match cs with
      | [] => none
      | ']' :: rest => some (found, rest)
      | cs => do
        let (s, rest) ← member steps cs
        members steps (.union found s) rest

def operand : Nat → CharSet → List Char → Option (CharSet × List Char)
  | 0, _, _ => none
  | steps + 1, found, cs =>
    match cs with
    | [] => none
    | ']' :: rest => some (found, ']' :: rest)
    | cs =>
      if (setOperation? cs).isSome then some (found, cs)
      else do
        let (s, rest) ← member steps cs
        operand steps (.union found s) rest

def member : Nat → List Char → Option (CharSet × List Char)
  | 0, _ => none
  | steps + 1, cs =>
    match cs with
    | '[' :: ':' :: rest =>
      match named rest with
      | some found => some found
      | none => bracket steps (':' :: rest)
    | '[' :: rest => bracket steps rest
    | '\\' :: rest =>
      match escapedClass rest with
      | some found => some found
      | none => charOrRange cs
    | cs => charOrRange cs
end

def natural (cs : List Char) : Option (Nat × List Char) :=
  let ds := cs.takeWhile isAsciiDigit
  if ds.isEmpty then none else some (Nat.ofDigitChars 10 ds 0, cs.dropWhile isAsciiDigit)

def counts (cs : List Char) : Option ((Nat × Option Nat) × List Char) :=
  match natural cs with
  | some (n, '\x7d' :: rest) => some ((n, some 0), rest)
  | some (n, ',' :: '\x7d' :: rest) => some ((n, none), rest)
  | some (n, ',' :: rest) =>
    match natural rest with
    | some (m, '\x7d' :: rest) => if n ≤ m then some ((n, some (m - n)), rest) else none
    | _ => none
  | _ => none

def repetitions : Nat → Expr → List Char → Option (Expr × List Char)
  | 0, _, _ => none
  | steps + 1, e, cs =>
    let lazily (rest : List Char) : List Char := match rest with
      | '?' :: rest => rest
      | rest => rest
    match cs with
    | '*' :: rest => repetitions steps (.times e 0 none) (lazily rest)
    | '+' :: rest => repetitions steps (.times e 1 none) (lazily rest)
    | '?' :: rest => repetitions steps (.times e 0 (some 1)) (lazily rest)
    | '\x7b' :: rest => do
      let ((least, more), rest) ← counts rest
      repetitions steps (.times e least more) (lazily rest)
    | cs => some (e, cs)

def flags : Bool → Flags → List Char → Option (Flags × List Char)
  | _, _, [] => none
  | _, f, ':' :: rest => some (f, ':' :: rest)
  | _, f, ')' :: rest => some (f, ')' :: rest)
  | true, f, '-' :: rest => flags false f rest
  | on, f, 'i' :: rest => flags on { f with anyCase := on } rest
  | on, f, 'm' :: rest => flags on { f with multiLine := on } rest
  | on, f, 's' :: rest => flags on { f with dotAll := on } rest
  | on, f, 'x' :: rest => flags on { f with spaced := on } rest
  | on, f, 'U' :: rest => flags on f rest
  | true, f, 'u' :: rest => flags true f rest
  | _, _, _ => none

def afterName (cs : List Char) : Option (List Char) := do
  let (name, rest) ← splitAtFirst '>' cs
  match name with
  | [] => none
  | c :: _ =>
    if !isAsciiDigit c && name.all fun c => isWordChar c || c == '.' || c == '[' || c == ']' then
      some rest
    else none

def skipSpaces (f : Flags) : List Char → List Char
  | [] => []
  | c :: cs =>
    if f.spaced && isBlank c then skipSpaces f cs
    else if f.spaced && c == '#' then skipComment cs
    else c :: cs
where
  skipComment : List Char → List Char
    | [] => []
    | c :: cs => if c == '\n' then skipSpaces f cs else skipComment cs

mutual
/-- Alternatives up to a closing parenthesis or the end of the text. The first argument bounds
the steps. -/
def alternatives : Nat → Flags → List Char → Option (Expr × List Char)
  | 0, _, _ => none
  | steps + 1, f, cs => do
    let (e, f, rest) ← sequence steps f .empty cs
    match rest with
    | '|' :: rest => do
      let (e', rest) ← alternatives steps f rest
      some (.alt e e', rest)
    | rest => some (e, rest)

def sequence : Nat → Flags → Expr → List Char → Option (Expr × Flags × List Char)
  | 0, _, _, _ => none
  | steps + 1, f, found, cs =>
    match skipSpaces f cs with
    | [] => some (found, f, [])
    | '|' :: rest => some (found, f, '|' :: rest)
    | ')' :: rest => some (found, f, ')' :: rest)
    | '(' :: '?' :: rest =>
      match rest with
      | 'P' :: '<' :: rest | '<' :: rest => do group steps f found f (← afterName rest)
      | rest => do
        let (inner, rest) ← flags true f rest
        match rest with
        | ')' :: rest => sequence steps inner found rest
        | _ :: rest => group steps f found inner rest
        | [] => none
    | '(' :: rest => group steps f found f rest
    | cs => do
      let (e, rest) ← atom steps f cs
      let (e, rest) ← repetitions (rest.length + 1) e (skipSpaces f rest)
      sequence steps f (.seq found e) rest

/-- A group after its opening parenthesis, and what follows it. -/
def group : Nat → Flags → Expr → Flags → List Char → Option (Expr × Flags × List Char)
  | 0, _, _, _, _ => none
  | steps + 1, f, found, inner, cs => do
    let (e, rest) ← alternatives steps inner cs
    match rest with
    | ')' :: rest => do
      let (e, rest) ← repetitions (rest.length + 1) e (skipSpaces f rest)
      sequence steps f (.seq found e) rest
    | _ => none

def atom : Nat → Flags → List Char → Option (Expr × List Char)
  | 0, _, _ => none
  | steps + 1, f, cs =>
    match cs with
    | '*' :: _ | '+' :: _ | '?' :: _ | '\x7b' :: _ => none
    | '^' :: rest => some (.anchor (if f.multiLine then .lineStart else .textStart), rest)
    | '$' :: rest => some (.anchor (if f.multiLine then .lineEnd else .textEnd), rest)
    | '.' :: rest => some (.set (.compl (if f.dotAll then .none else single '\n')), rest)
    | '[' :: rest => (bracket steps rest).map fun (s, rest) => (.set (f.apply s), rest)
    | '\\' :: rest =>
      match escapedClass rest, escapedAnchor rest, escapedChar rest with
      | some (s, rest), _, _ => some (.set s, rest)
      | _, some (a, rest), _ => some (.anchor a, rest)
      | _, _, some (c, rest) => some (.set (f.apply (single c)), rest)
      | none, none, none => none
    | c :: rest => some (.set (f.apply (single c)), rest)
    | [] => none
end

end Reader

/-- The regular expression that a text denotes. -/
def parse? (text : String) : Option Pattern :=
  let cs := text.toList
  match Reader.alternatives (4 * cs.length + 4) {} cs with
  | some (e, []) => some ⟨text, e⟩
  | _ => none

end MeetingLedger.Pattern
