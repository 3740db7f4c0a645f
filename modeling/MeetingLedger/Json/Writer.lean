import MeetingLedger.Json.Basic

/-!
# JSON values as text

A value is written on one line without blanks, or indented by two columns a level.
-/

namespace MeetingLedger.Json

/-- A floating point number always shows a point or an exponent; the exponent part appears from
`10 ^ 16` on and below `10 ^ -5`. -/
def realLayout : DecimalLayout := ⟨fun e => -5 ≤ e && e ≤ 15, true⟩

def writeNumber : Number → String
  | .whole n => toString n.value
  | .real x => realLayout.write x

def escaped (c : Char) : List Char :=
  match c with
  | '"' => ['\\', '"']
  | '\\' => ['\\', '\\']
  | '\x08' => ['\\', 'b']
  | '\t' => ['\\', 't']
  | '\n' => ['\\', 'n']
  | '\x0c' => ['\\', 'f']
  | '\r' => ['\\', 'r']
  | c =>
    if c.toNat < 32 then
      ['\\', 'u', '0', '0', Nat.digitChar (c.toNat / 16), Nat.digitChar (c.toNat % 16)]
    else [c]

def quoted (s : String) : String :=
  "\"" ++ String.ofList (s.toList.flatMap escaped) ++ "\""

mutual
def compact : Json → String
  | null => "null"
  | boolean b => if b then "true" else "false"
  | number n => writeNumber n
  | string s => quoted s
  | array items => "[" ++ ",".intercalate (compactItems items) ++ "]"
  | object members => "\x7b" ++ ",".intercalate (compactMembers members) ++ "\x7d"

def compactItems : List Json → List String
  | [] => []
  | v :: vs => compact v :: compactItems vs

def compactMembers : List (String × Json) → List String
  | [] => []
  | (k, v) :: ms => (quoted k ++ ":" ++ compact v) :: compactMembers ms
end

def bracketed (opening closing : String) (indent : Nat) (parts : List String) : String :=
  let inner := String.ofList (List.replicate (2 * (indent + 1)) ' ')
  let outer := String.ofList (List.replicate (2 * indent) ' ')
  if parts.isEmpty then opening ++ closing
  else
    opening ++ "\n" ++ ",\n".intercalate (parts.map (inner ++ ·)) ++ "\n" ++ outer ++ closing

mutual
def pretty (indent : Nat) : Json → String
  | array items => bracketed "[" "]" indent (prettyItems (indent + 1) items)
  | object members => bracketed "\x7b" "\x7d" indent (prettyMembers (indent + 1) members)
  | v => compact v

def prettyItems (indent : Nat) : List Json → List String
  | [] => []
  | v :: vs => pretty indent v :: prettyItems indent vs

def prettyMembers (indent : Nat) : List (String × Json) → List String
  | [] => []
  | (k, v) :: ms => (quoted k ++ ": " ++ pretty indent v) :: prettyMembers indent ms
end

/-- A value in a message: a string without quotes, anything else on one line. -/
def display : Json → String
  | string s => s
  | v => compact v

end MeetingLedger.Json
