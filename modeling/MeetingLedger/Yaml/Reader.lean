import MeetingLedger.Yaml.Scalar

/-!
# YAML values from text

Block and flow collections, plain, quoted and block scalars, comments, anchors and tags are read. A
text holds at most one document.
-/

namespace MeetingLedger.Yaml

namespace Reader

/-- The text that is left, the column of its first character, whether only blanks stand before
it on its line, and the values that were given a name. -/
structure State where
  rest : List Char
  column : Nat
  lineStart : Bool
  anchors : List (String × Yaml)

abbrev Reading := StateT State Option

def fail {α : Type} : Reading α := fun _ => none

def left : Reading (List Char) := do return (← get).rest

def skip (count : Nat) : Reading Unit :=
  modify fun s =>
    { s with rest := s.rest.drop count, column := s.column + count, lineStart := false }

def goTo (rest : List Char) : Reading Unit :=
  modify fun s =>
    { s with rest := rest, column := s.column + (s.rest.length - rest.length), lineStart := false }

def isGapStart : List Char → Bool
  | [] => true
  | c :: _ => c == ' ' || c == '\t' || c == '\n'

def isFlowIndicator (c : Char) : Bool :=
  c == ',' || c == '[' || c == ']' || c == '\x7b' || c == '\x7d'

/-- Blanks, comments and line ends, and where they end: the column and whether only blanks stand
before it on its line. A tab at the start of a line is no blank outside of flow collections. -/
def voidEnd (flow : Bool) : Bool → Nat → Bool → List Char → Nat × Bool × List Char
  | _, column, lineStart, [] => (column, lineStart, [])
  | true, column, lineStart, c :: cs =>
    if c = '\n' then voidEnd flow false 0 true cs else voidEnd flow true (column + 1) lineStart cs
  | false, column, lineStart, c :: cs =>
    if c = '\n' then voidEnd flow false 0 true cs
    else if c = ' ' || (c = '\t' && (flow || !lineStart)) then
      voidEnd flow false (column + 1) lineStart cs
    else if c = '#' then voidEnd flow true (column + 1) lineStart cs
    else (column, lineStart, c :: cs)

def skipVoid (flow : Bool) : Reading Unit :=
  modify fun s =>
    let (column, lineStart, rest) := voidEnd flow false s.column s.lineStart s.rest
    { s with rest, column, lineStart }

def skipBlanks : Reading Unit := do
  let cs ← left
  skip (cs.takeWhile fun c => c == ' ' || c == '\t').length

/-- A plain scalar up to the end of its line: what belongs to it and what follows. -/
def plainLine (flow : Bool) : Bool → List Char → List Char × List Char
  | _, [] => ([], [])
  | afterBlank, c :: cs =>
    if c = '\n' || (c = '#' && afterBlank) || (c = ':' && isGapStart cs) ||
      (flow && isFlowIndicator c) then ([], c :: cs)
    else
      let (taken, rest) := plainLine flow (c == ' ' || c == '\t') cs
      (c :: taken, rest)

def withoutTrailingBlanks (cs : List Char) : List Char :=
  (cs.reverse.dropWhile fun c => c == ' ' || c == '\t').reverse

def plainPiece (flow : Bool) : Reading (List Char) := do
  let cs ← left
  let (taken, rest) := plainLine flow false cs
  let piece := withoutTrailingBlanks taken
  match rest with
  | ':' :: c :: _ => if flow && isFlowIndicator c then fail else pure ()
  | _ => pure ()
  skip piece.length
  return piece

/-- The number of line ends up to the next line with content, and that line with its column. -/
def nextLine : Nat → Nat → List Char → Nat × Nat × List Char
  | breaks, column, [] => (breaks, column, [])
  | breaks, column, c :: cs =>
    if c = '\n' then nextLine (breaks + 1) 0 cs
    else if c = ' ' || (c = '\t' && 0 < column) then nextLine breaks (column + 1) cs
    else (breaks, column, c :: cs)

/-- One line end is a blank, more of them are one line end less. -/
def folded (breaks : Nat) : List Char :=
  if breaks ≤ 1 then [' '] else List.replicate (breaks - 1) '\n'

/-- The further lines of a plain scalar, which stand at a least column. The first argument
bounds their number. -/
def plainRest (flow : Bool) (least : Nat) : Nat → List Char → Reading (List Char)
  | 0, found => pure found
  | bound + 1, found => do
    let cs ← left
    let (breaks, column, rest) := nextLine 0 0 (cs.dropWhile fun c => c == ' ' || c == '\t')
    match rest with
    | [] => return found
    | c :: _ =>
      if breaks = 0 || c = '#' || (!flow && column < least) then return found
      else
        let (taken, _) := plainLine flow false rest
        if taken.isEmpty then return found
        else
          modify fun s => { s with rest, column, lineStart := false }
          let piece ← plainPiece flow
          plainRest flow least bound (found ++ folded breaks ++ piece)

/-- A single quoted text after its opening quote, with the blanks that may yet be trimmed. -/
def singleQuoted : Nat → List Char → List Char → Option (List Char × List Char)
  | 0, _, _ => none
  | _, _, [] => none
  | bound + 1, blanks, c :: cs =>
    if c = '\'' then
      match cs with
      | '\'' :: cs =>
        (singleQuoted bound [] cs).map fun (s, rest) => (blanks ++ '\'' :: s, rest)
      | cs => some (blanks, cs)
    else if c = ' ' || c = '\t' then singleQuoted bound (blanks ++ [c]) cs
    else if c = '\n' then
      let (breaks, _, cs) := nextLine 1 1 cs
      (singleQuoted bound [] cs).map fun (s, rest) => (folded breaks ++ s, rest)
    else (singleQuoted bound [] cs).map fun (s, rest) => (blanks ++ c :: s, rest)

def codePoint (count : Nat) (cs : List Char) : Option (Char × List Char) := do
  if cs.length < count then none
  else
    let n ← digits? 16 (cs.take count)
    if n.isValidChar then some (Char.ofNat n, cs.drop count) else none

def escape : List Char → Option (Char × List Char)
  | '0' :: cs => some ('\x00', cs)
  | 'a' :: cs => some ('\x07', cs)
  | 'b' :: cs => some ('\x08', cs)
  | 't' :: cs | '\t' :: cs => some ('\t', cs)
  | 'n' :: cs => some ('\n', cs)
  | 'v' :: cs => some ('\x0b', cs)
  | 'f' :: cs => some ('\x0c', cs)
  | 'r' :: cs => some ('\r', cs)
  | 'e' :: cs => some ('\x1b', cs)
  | ' ' :: cs => some (' ', cs)
  | '"' :: cs => some ('"', cs)
  | '/' :: cs => some ('/', cs)
  | '\\' :: cs => some ('\\', cs)
  | 'N' :: cs => some ('\u0085', cs)
  | '_' :: cs => some ('\u00a0', cs)
  | 'L' :: cs => some ('\u2028', cs)
  | 'P' :: cs => some ('\u2029', cs)
  | 'x' :: cs => codePoint 2 cs
  | 'u' :: cs => codePoint 4 cs
  | 'U' :: cs => codePoint 8 cs
  | _ => none

def doubleQuoted : Nat → List Char → List Char → Option (List Char × List Char)
  | 0, _, _ => none
  | _, _, [] => none
  | bound + 1, blanks, c :: cs =>
    if c = '"' then some (blanks, cs)
    else if c = ' ' || c = '\t' then doubleQuoted bound (blanks ++ [c]) cs
    else if c = '\n' then
      let (breaks, _, cs) := nextLine 1 1 cs
      (doubleQuoted bound [] cs).map fun (s, rest) => (folded breaks ++ s, rest)
    else if c = '\\' then
      match cs with
      | '\n' :: cs =>
        let (breaks, _, cs) := nextLine 1 1 cs
        (doubleQuoted bound [] cs).map
          fun (s, rest) => (blanks ++ List.replicate (breaks - 1) '\n' ++ s, rest)
      | cs => do
        let (e, cs) ← escape cs
        (doubleQuoted bound [] cs).map fun (s, rest) => (blanks ++ e :: s, rest)
    else (doubleQuoted bound [] cs).map fun (s, rest) => (blanks ++ c :: s, rest)

def quotedText (quote : Char) : Reading String := do
  let cs ← left
  let result := if quote = '"' then doubleQuoted (cs.length + 1) [] cs
    else singleQuoted (cs.length + 1) [] cs
  match result with
  | none => fail
  | some (s, rest) =>
    goTo rest
    return String.ofList s

inductive Chomping where
  | clip
  | strip
  | keep

def blockHeader : List Char → Option Nat → Chomping → Option (Option Nat × Chomping × List Char)
  | '+' :: cs, indent, _ => blockHeader cs indent .keep
  | '-' :: cs, indent, _ => blockHeader cs indent .strip
  | c :: cs, none, chomping =>
    if '1' ≤ c && c ≤ '9' then blockHeader cs (some (c.toNat - '0'.toNat)) chomping
    else some (none, chomping, c :: cs)
  | cs, indent, chomping => some (indent, chomping, cs)

/-- The lines of a block scalar and the text behind them. Lines of blanks belong to it, lines
that stand before the given column do not. -/
def blockLines (indent : Nat) : Nat → List Char → List (List Char) × List Char
  | 0, cs => ([], cs)
  | bound + 1, cs =>
    if cs.isEmpty then ([], [])
    else
      let line := cs.takeWhile (· != '\n')
      let rest := (cs.dropWhile (· != '\n')).drop 1
      let blanks := (line.takeWhile (· == ' ')).length
      if blanks < indent && blanks < line.length then ([], cs)
      else
        let (lines, rest) := blockLines indent bound rest
        (line.drop indent :: lines, rest)

/-- The column of the first line with content, and at least the widest of the lines before. -/
def blockIndent : Nat → Nat → List Char → Nat
  | widest, column, c :: cs =>
    if c = ' ' then blockIndent widest (column + 1) cs
    else if c = '\n' then blockIndent (max widest column) 0 cs
    else max widest column
  | widest, _, [] => widest

/-- The text of folded lines. A line end becomes a blank unless a line at its side starts with a
blank; lines without content stand for line ends. -/
def foldLines : Bool → List (List Char) → List Char
  | _, [] => []
  | afterIndented, line :: lines =>
    if line.isEmpty then '\n' :: foldLines afterIndented lines
    else
      let indented (l : List Char) : Bool := l.head? == some ' ' || l.head? == some '\t'
      let joint := match lines with
        | [] => []
        | next :: later =>
          if indented line then ['\n']
          else if !next.isEmpty then (if indented next then ['\n'] else [' '])
          else
            match later.find? (!·.isEmpty) with
            | some l => if indented l then ['\n'] else []
            | none => []
      line ++ joint ++ foldLines (indented line) lines

def blockText (literal : Bool) (chomping : Chomping) (lines : List (List Char)) : List Char :=
  let content := (lines.reverse.dropWhile List.isEmpty).reverse
  let body := if literal then (content.intersperse ['\n']).flatten else foldLines false content
  let trailing := lines.length - content.length
  match chomping with
  | .strip => body
  | .clip => if content.isEmpty then [] else body ++ ['\n']
  | .keep =>
    (if content.isEmpty then [] else body ++ ['\n']) ++ List.replicate trailing '\n'

def blockScalar (literal : Bool) (least : Nat) : Reading String := do
  match blockHeader (← left) none .clip with
  | none => fail
  | some (increment, chomping, rest) =>
    match rest.dropWhile fun c => c == ' ' || c == '\t' with
    | [] => return ""
    | c :: rest =>
      let body := if c = '#' then (rest.dropWhile (· != '\n')).drop 1 else rest
      if c ≠ '\n' && c ≠ '#' then fail
      else
        let indent := match increment with
          | some n => (least - 1) + n
          | none => max (max 1 least) (blockIndent 0 0 body)
        let (lines, rest) := blockLines indent (body.length + 1) body
        modify fun s => { s with rest, column := 0, lineStart := true }
        return String.ofList (blockText literal chomping lines)

def tagName (cs : List Char) : List Char :=
  cs.takeWhile fun c => !(isBlank c || isFlowIndicator c)

def anchorName (cs : List Char) : List Char :=
  cs.takeWhile fun c => isAsciiLetter c || isAsciiDigit c || c == '_' || c == '-'

def startsPlain (flow : Bool) : List Char → Bool
  | [] => false
  | c :: cs =>
    if c = '-' then !isGapStart cs
    else if c = '?' || c = ':' then !flow && !isGapStart cs
    else
      !(isGapStart (c :: cs) || isFlowIndicator c || c == '#' || c == '&' || c == '*' ||
        c == '!' || c == '|' || c == '>' || c == '\'' || c == '"' || c == '%' || c == '@' ||
        c == '\x60')

def scalar (tag : Option String) (quoted : Bool) (s : String) : Reading Yaml :=
  fun state =>
    match tag with
    | none => (Scalar.resolveAs? "" quoted s).map (·, state)
    | some t =>
      match dropLiteral? ['!'] t.toList with
      | some core => (Scalar.resolveAs? (String.ofList core) quoted s).map (·, state)
      | none => (Scalar.resolveAs? "" quoted s).map fun v => (.tagged ("!" ++ t) v, state)

def collection (tag : Option String) (v : Yaml) : Yaml :=
  match tag with
  | none => v
  | some t => if t.toList.head? == some '!' then v else .tagged ("!" ++ t) v

def remember (anchor : Option String) (v : Yaml) : Reading Yaml := do
  match anchor with
  | none => return v
  | some name =>
    modify fun s => { s with anchors := (name, v) :: s.anchors }
    return v

def properties (flow : Bool) : Nat → Option String × Option String →
    Reading (Option String × Option String)
  | 0, found => pure found
  | bound + 1, (anchor, tag) => do
    match ← left with
    | '&' :: cs =>
      let name := anchorName cs
      if anchor.isSome || name.isEmpty || !isGapStart (cs.drop name.length) then fail
      else
        skip (name.length + 1)
        skipVoid flow
        properties flow bound (some (String.ofList name), tag)
    | '!' :: cs =>
      let name := tagName cs
      if tag.isSome then fail
      else
        skip (name.length + 1)
        skipVoid flow
        properties flow bound (anchor, some (String.ofList name))
    | _ => return (anchor, tag)

def repeated : Reading Yaml := do
  let name := anchorName (← left)
  match (← get).anchors.lookup (String.ofList name) with
  | none => fail
  | some v =>
    skip name.length
    return v

/-- Adds an entry to a mapping, in which no key stands twice. -/
def addEntry (entries : List (Yaml × Yaml)) (k v : Yaml) : Reading (List (Yaml × Yaml)) :=
  if entries.any (·.1.same k) then fail else return entries ++ [(k, v)]

mutual
/-- A node inside of a flow collection. The first argument bounds the steps. -/
def flowNode : Nat → Reading Yaml
  | 0 => fail
  | steps + 1 => do
    skipVoid true
    let (anchor, tag) ← properties true 2 (none, none)
    match ← left with
    | '[' :: _ => do
      skip 1
      remember anchor (collection tag (.sequence (← flowItems steps)))
    | '\x7b' :: _ => do
      skip 1
      remember anchor (collection tag (.mapping (← flowEntries steps [])))
    | '"' :: _ => do skip 1; remember anchor (← scalar tag true (← quotedText '"'))
    | '\'' :: _ => do skip 1; remember anchor (← scalar tag true (← quotedText '\''))
    | '*' :: _ => do skip 1; repeated
    | cs =>
      if startsPlain true cs then do
        let piece ← plainPiece true
        let text ← plainRest true 0 cs.length piece
        remember anchor (← scalar tag false (String.ofList text))
      else if anchor.isSome || tag.isSome then do remember anchor (← scalar tag false "")
      else fail

def flowItems : Nat → Reading (List Yaml)
  | 0 => fail
  | steps + 1 => do
    skipVoid true
    match ← left with
    | ']' :: _ => do skip 1; return []
    | _ => do
      let v ← flowNode steps
      skipVoid true
      let item ← match ← left with
        | ':' :: _ => do
          skip 1
          pure (Yaml.mapping [(v, ← flowValue steps)])
        | _ => pure v
      skipVoid true
      match ← left with
      | ',' :: _ => do skip 1; return item :: (← flowItems steps)
      | ']' :: _ => do skip 1; return [item]
      | _ => fail

def flowValue : Nat → Reading Yaml
  | 0 => fail
  | steps + 1 => do
    skipVoid true
    match ← left with
    | ',' :: _ | ']' :: _ | '\x7d' :: _ => return .null
    | _ => flowNode steps

def flowEntries : Nat → List (Yaml × Yaml) → Reading (List (Yaml × Yaml))
  | 0, _ => fail
  | steps + 1, found => do
    skipVoid true
    match ← left with
    | '\x7d' :: _ => do skip 1; return found
    | cs => do
      let k ← if cs.head? == some ':' then pure .null else flowNode steps
      skipVoid true
      let v ← match ← left with
        | ':' :: _ => do skip 1; flowValue steps
        | _ => pure .null
      let entries ← addEntry found k v
      skipVoid true
      match ← left with
      | ',' :: _ => do skip 1; flowEntries steps entries
      | '\x7d' :: _ => do skip 1; return entries
      | _ => fail
end

def followsKey (cs : List Char) : Bool :=
  match cs.dropWhile fun c => c == ' ' || c == '\t' with
  | ':' :: rest => isGapStart rest
  | _ => false

def inlineNode (steps : Nat) (tag : Option String) : Reading Yaml := do
  match ← left with
  | '[' :: _ => do skip 1; return collection tag (.sequence (← flowItems steps))
  | '\x7b' :: _ => do skip 1; return collection tag (.mapping (← flowEntries steps []))
  | '"' :: _ => do skip 1; scalar tag true (← quotedText '"')
  | '\'' :: _ => do skip 1; scalar tag true (← quotedText '\'')
  | '*' :: _ => do skip 1; repeated
  | cs =>
    if startsPlain false cs then scalar tag false (String.ofList (← plainPiece false)) else fail

def keyMark : Reading Unit := do
  if followsKey (← left) then
    skipBlanks
    skip 1
  else fail

mutual
/-- A node whose content stands at a least column, a block sequence at another one. A block
collection may start on the current line only where the last argument says so. -/
def blockNode : Nat → Nat → Nat → Bool → Reading Yaml
  | 0, _, _, _ => fail
  | steps + 1, least, leastDash, compact => do
    skipVoid false
    let before ← get
    let dashed := match before.rest with
      | '-' :: cs => isGapStart cs
      | _ => false
    if before.rest.isEmpty ||
      (before.lineStart && before.column < (if dashed then leastDash else least)) then return .null
    else
      let (anchor, tag) ← properties false 2 (none, none)
      let s ← get
      let blockAllowed := s.lineStart || (compact && s.column == before.column)
      let nothing : Reading Yaml := do remember anchor (← scalar tag false "")
      if (anchor.isSome || tag.isSome) && (s.rest.isEmpty || (s.lineStart && s.column < least)) then
        nothing
      else
        match s.rest with
        | '-' :: cs =>
          if isGapStart cs then
            if blockAllowed then do
              remember anchor (collection tag (.sequence (← blockItems steps s.column)))
            else fail
          else blockContent steps least blockAllowed anchor tag
        | '?' :: cs =>
          if isGapStart cs && blockAllowed then do
            let (k, v) ← explicitEntry steps s.column
            remember anchor (collection tag (.mapping (← blockEntries steps s.column [(k, v)])))
          else fail
        | '|' :: _ => do
          skip 1
          remember anchor (← scalar tag true (← blockScalar true least))
        | '>' :: _ => do
          skip 1
          remember anchor (← scalar tag true (← blockScalar false least))
        | _ => blockContent steps least blockAllowed anchor tag

/-- A block mapping, or a scalar or flow collection that is no key. -/
def blockContent : Nat → Nat → Bool → Option String → Option String → Reading Yaml
  | 0, _, _, _, _ => fail
  | steps + 1, least, blockAllowed, anchor, tag => do
    let s ← get
    let text := s.rest
    let isPlain := startsPlain false text
    let (piece, behind) := plainLine false false text
    if isPlain && !followsKey behind then
      let first ← plainPiece false
      let whole ← plainRest false least text.length first
      if piece.isEmpty then fail
      else remember anchor (← scalar tag false (String.ofList whole))
    else
      let lineLength := (text.takeWhile (· != '\n')).length
      let v ← inlineNode steps none
      let rest ← left
      if followsKey rest then
        if blockAllowed && text.length - rest.length ≤ lineLength then do
          keyMark
          let value ← blockNode steps (s.column + 1) s.column false
          let entries ← blockEntries steps s.column [(v, value)]
          remember anchor (collection tag (.mapping entries))
        else fail
      else
        match tag with
        | none => remember anchor v
        | some _ => do
          set s
          remember anchor (← inlineNode steps tag)

def blockEntries : Nat → Nat → List (Yaml × Yaml) → Reading (List (Yaml × Yaml))
  | 0, _, _ => fail
  | steps + 1, column, found => do
    skipVoid false
    let s ← get
    if s.rest.isEmpty || (s.lineStart && s.column < column) then return found
    else if !s.lineStart || s.column ≠ column then fail
    else
      let (k, v) ← match s.rest with
        | '?' :: cs => if isGapStart cs then explicitEntry steps column else entry steps column
        | _ => entry steps column
      blockEntries steps column (← addEntry found k v)

def entry : Nat → Nat → Reading (Yaml × Yaml)
  | 0, _ => fail
  | steps + 1, column => do
    let (anchor, tag) ← properties false 2 (none, none)
    let k ← remember anchor (← inlineNode steps tag)
    keyMark
    return (k, ← blockNode steps (column + 1) column false)

def explicitEntry : Nat → Nat → Reading (Yaml × Yaml)
  | 0, _ => fail
  | steps + 1, column => do
    skip 1
    let k ← blockNode steps (column + 1) column true
    skipVoid false
    let s ← get
    match s.rest with
    | ':' :: cs =>
      if s.lineStart && s.column = column && isGapStart cs then do
        skip 1
        return (k, ← blockNode steps (column + 1) column true)
      else fail
    | _ => return (k, .null)

def blockItems : Nat → Nat → Reading (List Yaml)
  | 0, _ => fail
  | steps + 1, column => do
    skip 1
    let v ← blockNode steps (column + 1) (column + 1) true
    skipVoid false
    let s ← get
    match s.rest with
    | '-' :: cs =>
      if s.lineStart && s.column = column && isGapStart cs then
        return v :: (← blockItems steps column)
      else if s.lineStart && s.column < column then return [v]
      else fail
    | [] => return [v]
    | _ => if s.lineStart && s.column ≤ column then return [v] else fail
end

def isAllowed (c : Char) : Bool :=
  c == '\t' || c == '\n' || (' ' ≤ c && c.toNat ≠ 0x7F && !(0x80 ≤ c.toNat && c.toNat < 0xA0)) ||
    c.toNat == 0x85

def normalized : List Char → List Char
  | '\r' :: '\n' :: cs => '\n' :: normalized cs
  | '\r' :: cs => '\n' :: normalized cs
  | c :: cs => c :: normalized cs
  | [] => []

def lines (cs : List Char) : List (List Char) :=
  cs.foldr (fun c ls =>
    match ls with
    | l :: rest => if c = '\n' then [] :: l :: rest else (c :: l) :: rest
    | [] => if c = '\n' then [[], []] else [[c]]) [[]]

def behindMark? (mark : Char) (line : List Char) : Option (List Char) :=
  match dropLiteral? [mark, mark, mark] line with
  | some rest => if isGapStart rest then some rest else none
  | none => none

def isVoidLine (line : List Char) : Bool :=
  match line.dropWhile fun c => c == ' ' || c == '\t' with
  | [] => true
  | c :: _ => c == '#'

/-- The documents of a text by their lines. The last argument is the document that is being
read, if one has started. -/
def documents : List (List Char) → Option (List (List Char)) → List (List (List Char))
  | [], none => []
  | [], some doc => [doc.reverse]
  | line :: rest, doc =>
    match behindMark? '-' line, behindMark? '.' line, doc with
    | some behind, _, none => documents rest (some [' ' :: ' ' :: ' ' :: behind])
    | some behind, _, some doc => doc.reverse :: documents rest (some [' ' :: ' ' :: ' ' :: behind])
    | none, some _, none => documents rest none
    | none, some _, some doc => doc.reverse :: documents rest none
    | none, none, none =>
      if isVoidLine line || line.head? == some '%' then documents rest none
      else documents rest (some [line])
    | none, none, some doc => documents rest (some (line :: doc))

def document (text : List Char) : Option Yaml := do
  let steps := 4 * text.length + 8
  let read : Reading Yaml := do
    let v ← blockNode steps 0 0 true
    skipVoid false
    if (← left).isEmpty then return v else fail
  let (v, _) ← read ⟨text, 0, true, []⟩
  some v

end Reader

def parse? (text : String) : Option Yaml :=
  let cs := Reader.normalized (match text.toList with
    | '\ufeff' :: cs => cs
    | cs => cs)
  if !cs.all Reader.isAllowed then none
  else
    match Reader.documents (Reader.lines cs) none with
    | [] => some .null
    | [doc] => Reader.document ((doc.intersperse ['\n']).flatten)
    | _ => none

end MeetingLedger.Yaml
