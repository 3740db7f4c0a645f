import MeetingLedger.Text.Character
import MeetingLedger.Toml.Document

/-! # TOML documents from text -/

namespace MeetingLedger.Toml.Reader

def isGap (c : Char) : Bool := c == ' ' || c == '\t'

def skipGap (cs : List Char) : List Char := cs.dropWhile isGap

def isPlain (c : Char) : Bool := c == '\t' || (' ' ≤ c && c ≤ '~') || 0x80 ≤ c.toNat

def lineEnd? : List Char → Option (List Char)
  | '\n' :: cs | '\r' :: '\n' :: cs => some cs
  | _ => none

def skipComment : List Char → List Char
  | '#' :: cs => cs.dropWhile isPlain
  | cs => cs

def restOfLine? (cs : List Char) : Option (List Char) :=
  match skipComment (skipGap cs) with
  | [] => some []
  | cs => lineEnd? cs

/-- The text after gaps, comments and line ends; the first argument bounds their number. -/
def skipLines : Nat → List Char → List Char
  | 0, cs => cs
  | bound + 1, cs =>
    let cs := skipComment (skipGap cs)
    match lineEnd? cs with
    | some rest => skipLines bound rest
    | none => cs

def codePoint (count : Nat) (cs : List Char) : Option (Char × List Char) := do
  let ds := cs.take count
  if ds.length < count then none
  else
    let n ← digits? 16 ds
    if h : n.isValidChar then some (Char.ofNatAux n h, cs.drop count) else none

def escape : List Char → Option (Char × List Char)
  | 'b' :: cs => some ('\x08', cs)
  | 't' :: cs => some ('\t', cs)
  | 'n' :: cs => some ('\n', cs)
  | 'f' :: cs => some ('\x0c', cs)
  | 'r' :: cs => some ('\r', cs)
  | '"' :: cs => some ('"', cs)
  | '\\' :: cs => some ('\\', cs)
  | 'u' :: cs => codePoint 4 cs
  | 'U' :: cs => codePoint 8 cs
  | _ => none

/-- A text up to its closing quote; backslashes escape only within double quotes. -/
def quotedBody (quote : Char) : Nat → List Char → Option (List Char × List Char)
  | 0, _ | _, [] => none
  | bound + 1, c :: cs =>
    if c = quote then some ([], cs)
    else if c = '\\' ∧ quote = '"' then do
      let (d, cs) ← escape cs
      let (s, rest) ← quotedBody quote bound cs
      some (d :: s, rest)
    else if isPlain c then do
      let (s, rest) ← quotedBody quote bound cs
      some (c :: s, rest)
    else none

def foldedLines? (cs : List Char) : Option (List Char) := do
  let rest ← lineEnd? (skipGap cs)
  some (rest.dropWhile fun c => isGap c || c == '\n' || c == '\r')

/-- A text over several lines up to three quotes, in front of which it may end in two more. -/
def longBody (quote : Char) : Nat → List Char → Option (List Char × List Char)
  | 0, _ | _, [] => none
  | bound + 1, c :: cs =>
    if c = quote then
      let run := (c :: cs).takeWhile (· == quote)
      if run.length < 3 then do
        let (s, rest) ← longBody quote bound cs
        some (c :: s, rest)
      else
        let taken := Nat.min run.length 5
        some (List.replicate (taken - 3) quote, (c :: cs).drop taken)
    else if c = '\\' ∧ quote = '"' then
      match foldedLines? cs with
      | some cs => longBody quote bound cs
      | none => do
        let (d, cs) ← escape cs
        let (s, rest) ← longBody quote bound cs
        some (d :: s, rest)
    else
      match lineEnd? (c :: cs) with
      | some cs => do
        let (s, rest) ← longBody quote bound cs
        some ('\n' :: s, rest)
      | none =>
        if isPlain c then do
          let (s, rest) ← longBody quote bound cs
          some (c :: s, rest)
        else none

def shortText (quote : Char) (cs : List Char) : Option (String × List Char) :=
  (quotedBody quote (cs.length + 1) cs).map fun (s, rest) => (String.ofList s, rest)

def text (quote : Char) (cs : List Char) : Option (String × List Char) :=
  match dropLiteral? [quote, quote] cs with
  | some cs =>
    (longBody quote (cs.length + 1) ((lineEnd? cs).getD cs)).map
      fun (s, rest) => (String.ofList s, rest)
  | none => shortText quote cs

def isKeyChar (c : Char) : Bool := isAsciiLetter c || isAsciiDigit c || c == '_' || c == '-'

def name : List Char → Option (String × List Char)
  | '"' :: cs => shortText '"' cs
  | '\'' :: cs => shortText '\'' cs
  | cs =>
    if (cs.takeWhile isKeyChar).isEmpty then none
    else some (String.ofList (cs.takeWhile isKeyChar), cs.dropWhile isKeyChar)

def key : Nat → List Char → Option (List String × List Char)
  | 0, _ => none
  | bound + 1, cs => do
    let (first, cs) ← name (skipGap cs)
    match skipGap cs with
    | '.' :: cs => do
      let (names, rest) ← key bound cs
      some (first :: names, rest)
    | cs => some ([first], cs)

def digitRun (isDigit : Char → Bool) : List Char → List Char × List Char
  | c :: '_' :: d :: cs =>
    if isDigit c && isDigit d then
      let (ds, rest) := digitRun isDigit (d :: cs)
      (c :: ds, rest)
    else if isDigit c then ([c], '_' :: d :: cs)
    else ([], c :: '_' :: d :: cs)
  | c :: cs =>
    if isDigit c then
      let (ds, rest) := digitRun isDigit cs
      (c :: ds, rest)
    else ([], c :: cs)
  | [] => ([], [])

def someDigits? (isDigit : Char → Bool) (cs : List Char) : Option (List Char × List Char) :=
  match digitRun isDigit cs with
  | ([], _) => none
  | found => some found

def integer? (n : Int) : Option Toml :=
  if -9223372036854775808 ≤ n ∧ n < 9223372036854775808 then some (.integer (Int64.ofInt n))
  else none

def basedInteger (base : Nat) (cs : List Char) : Option (Toml × List Char) := do
  let isDigit := fun c => (hexDigit? c).any (· < base)
  let (ds, rest) ← someDigits? isDigit cs
  let n ← digits? base ds
  (integer? n).map (·, rest)

def wholeDigits? (cs : List Char) : Option (List Char × List Char) :=
  match cs with
  | '0' :: rest => some (['0'], rest)
  | cs => someDigits? isAsciiDigit cs

def fraction? (cs : List Char) : Option (List Char × List Char) :=
  match cs with
  | '.' :: cs => do
    let (ds, rest) ← someDigits? isAsciiDigit cs
    some ('.' :: ds, rest)
  | cs => some ([], cs)

def exponent? (cs : List Char) : Option (List Char × List Char) :=
  match cs with
  | 'e' :: cs | 'E' :: cs => do
    let (sign, cs) := match cs with
      | '+' :: cs => ([], cs)
      | '-' :: cs => (['-'], cs)
      | cs => ([], cs)
    let (ds, rest) ← someDigits? isAsciiDigit cs
    some ('e' :: sign ++ ds, rest)
  | cs => some ([], cs)

def unsigned (negative : Bool) (cs : List Char) : Option (Toml × List Char) :=
  match dropLiteral? ['i', 'n', 'f'] cs, dropLiteral? ['n', 'a', 'n'] cs with
  | some rest, _ => some (.float (.infinity negative), rest)
  | none, some rest => some (.float .nan, rest)
  | none, none => do
    let (ds, cs) ← wholeDigits? cs
    let (fraction, cs) ← fraction? cs
    let (exponent, rest) ← exponent? cs
    if fraction.isEmpty && exponent.isEmpty then
      let n : Int := Nat.ofDigitChars 10 ds 0
      (integer? (if negative then -n else n)).map (·, rest)
    else
      match Real64.readUnsigned? negative (ds ++ fraction ++ exponent) with
      | some x => if x = .infinity false then none else some (.float x, rest)
      | none => none

def number (cs : List Char) : Option (Toml × List Char) :=
  match cs with
  | '0' :: 'x' :: cs => basedInteger 16 cs
  | '0' :: 'o' :: cs => basedInteger 8 cs
  | '0' :: 'b' :: cs => basedInteger 2 cs
  | '+' :: cs => unsigned false cs
  | '-' :: cs => unsigned true cs
  | cs => unsigned false cs

def fixedDigits? (count low high : Nat) (cs : List Char) : Option (Nat × List Char) :=
  let ds := cs.take count
  if ds.length = count && ds.all isAsciiDigit then
    let n := Nat.ofDigitChars 10 ds 0
    if low ≤ n && n ≤ high then some (n, cs.drop count) else none
  else none

def isLeapYear (year : Nat) : Bool :=
  year % 4 == 0 && (year % 100 != 0 || year % 400 == 0)

def daysIn (year month : Nat) : Nat :=
  if month = 2 then if isLeapYear year then 29 else 28
  else if [4, 6, 9, 11].contains month then 30
  else 31

def afterDate? (cs : List Char) : Option (List Char) := do
  let (year, cs) ← fixedDigits? 4 0 9999 cs
  let cs ← dropLiteral? ['-'] cs
  let (month, cs) ← fixedDigits? 2 1 12 cs
  let cs ← dropLiteral? ['-'] cs
  let (_, rest) ← fixedDigits? 2 1 (daysIn year month) cs
  some rest

def afterFraction? (cs : List Char) : Option (List Char) :=
  match cs with
  | '.' :: cs =>
    if (cs.takeWhile isAsciiDigit).isEmpty then none else some (cs.dropWhile isAsciiDigit)
  | cs => some cs

def afterTime? (cs : List Char) : Option (List Char) := do
  let (_, cs) ← fixedDigits? 2 0 23 cs
  let cs ← dropLiteral? [':'] cs
  let (_, cs) ← fixedDigits? 2 0 59 cs
  let cs ← dropLiteral? [':'] cs
  let (_, cs) ← fixedDigits? 2 0 60 cs
  afterFraction? cs

def afterOffset? (cs : List Char) : Option (List Char) :=
  match cs with
  | 'Z' :: cs | 'z' :: cs => some cs
  | '+' :: cs | '-' :: cs => do
    let (_, cs) ← fixedDigits? 2 0 23 cs
    let cs ← dropLiteral? [':'] cs
    let (_, rest) ← fixedDigits? 2 0 59 cs
    some rest
  | cs => some cs

def afterMoment? (cs : List Char) : Option (List Char) := do
  let cs ← afterDate? cs
  let timed := fun (rest : List Char) => do afterOffset? (← afterTime? rest)
  match cs with
  | 'T' :: rest | 't' :: rest => timed rest
  | ' ' :: c :: rest => if isAsciiDigit c then timed (c :: rest) else some cs
  | cs => some cs

def startsWithDigits (count : Nat) (mark : Char) (cs : List Char) : Bool :=
  (cs.take count).length == count && (cs.take count).all isAsciiDigit &&
    (cs.drop count).head? == some mark

def momentOrNumber (cs : List Char) : Option (Toml × List Char) :=
  let after? := if startsWithDigits 4 '-' cs then some (afterMoment? cs)
    else if startsWithDigits 2 ':' cs then some (afterTime? cs)
    else none
  match after? with
  | none => number cs
  | some after? => do
    let rest ← after?
    some (.moment (String.ofList (cs.take (cs.length - rest.length))), rest)

mutual
/-- A value. The first argument bounds the number of steps, the second the levels of nesting. -/
def value : Nat → Nat → List Char → Option (Toml × List Char)
  | 0, _, _ => none
  | _ + 1, _, [] => none
  | steps + 1, levels, c :: cs =>
    if c = '"' ∨ c = '\'' then (text c cs).map fun (s, rest) => (.string s, rest)
    else if c = '[' then
      match levels with
      | 0 => none
      | levels + 1 => (items steps levels cs).map fun (vs, rest) => (.array vs, rest)
    else if c = '\x7b' then
      match levels with
      | 0 => none
      | levels + 1 =>
        match skipGap cs with
        | '\x7d' :: rest => some (.table [], rest)
        | cs => (assignments steps levels [] cs).map
          fun (t, rest) => (.table (contentToToml t), rest)
    else
      match dropLiteral? ['t', 'r', 'u', 'e'] (c :: cs),
        dropLiteral? ['f', 'a', 'l', 's', 'e'] (c :: cs) with
      | some rest, _ => some (.boolean true, rest)
      | none, some rest => some (.boolean false, rest)
      | none, none => momentOrNumber (c :: cs)

def items : Nat → Nat → List Char → Option (List Toml × List Char)
  | 0, _, _ => none
  | steps + 1, levels, cs =>
    match skipLines cs.length cs with
    | ']' :: rest => some ([], rest)
    | cs => do
      let (v, cs) ← value steps levels cs
      match skipLines cs.length cs with
      | ']' :: rest => some ([v], rest)
      | ',' :: cs => do
        let (vs, rest) ← items steps levels cs
        some (v :: vs, rest)
      | _ => none

def assignments : Nat → Nat → Content → List Char → Option (Content × List Char)
  | 0, _, _, _ => none
  | steps + 1, levels, c, cs => do
    let (k, cs) ← key cs.length cs
    let cs ← dropLiteral? ['='] cs
    let (v, cs) ← value steps levels (skipGap cs)
    let c ← Content.assignPath k v .header c
    match skipGap cs with
    | '\x7d' :: rest => some (c, rest)
    | ',' :: cs => assignments steps levels c cs
    | _ => none
end

def maximumNesting : Nat := 80

def header (cs : List Char) : Option ((List String × Bool) × List Char) :=
  match cs with
  | '[' :: cs => do
    let (k, cs) ← key cs.length cs
    (dropLiteral? [']', ']'] cs).map ((k, true), ·)
  | cs => do
    let (k, cs) ← key cs.length cs
    (dropLiteral? [']'] cs).map ((k, false), ·)

def document : Nat → List String → Content → List Char → Option Content
  | 0, _, _, _ => none
  | bound + 1, below, c, cs =>
    match skipLines cs.length cs with
    | [] => some c
    | '[' :: cs => do
      let ((k, isList), cs) ← header cs
      let c ← if isList then c.openListTable k else c.openTable k
      document bound k c (← restOfLine? cs)
    | cs => do
      let (k, cs) ← key cs.length cs
      let cs ← dropLiteral? ['='] cs
      let (v, cs) ← value (2 * cs.length + 2) maximumNesting (skipGap cs)
      document bound below (← c.assignBelow below k v) (← restOfLine? cs)

end MeetingLedger.Toml.Reader

namespace MeetingLedger.Toml

/-- The table that a text denotes. -/
def parse? (text : String) : Option Toml :=
  let cs := match text.toList with
    | '\uFEFF' :: cs => cs
    | cs => cs
  (Reader.document (cs.length + 1) [] [] cs).map fun c => .table (contentToToml c)

end MeetingLedger.Toml
