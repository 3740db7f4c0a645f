/-!
# Arguments of a command

Arguments are options, values of options and operands. Options come in any order, also behind
operands, and each of them once.
-/

namespace MeetingLedger.CommandLine

inductive Role where
  /-- To be there or not. -/
  | toggle
  /-- To have one of the values that are accepted. -/
  | setting (accepts : String → Bool)
  | help
  | version

structure Switch where
  long : String
  letter? : Option Char := none
  role : Role := .toggle

def Switch.takesValue (s : Switch) : Bool :=
  match s.role with
  | .setting _ => true
  | _ => false

structure Grammar where
  switches : List Switch
  /-- How many operands there are at most. -/
  operandLimit : Option Nat := some 0
  acceptsOperand : String → Bool := fun _ => true
  /-- The words at which the arguments of another command start. -/
  commands : List String := []

/-- Why arguments are not carried out. -/
inductive Refusal where
  /-- They make no sense. -/
  | usage
  /-- They ask what a command takes. -/
  | help
  /-- They ask for the version of the program. -/
  | version
deriving DecidableEq

inductive Shape where
  /-- The mark behind which there are operands only. -/
  | mark
  | long (name : String) (value? : Option String)
  | letters (cs : List Char)
  | plain

/-- A name and, behind the first equals sign, a value. -/
def longShape (cs : List Char) : Shape :=
  let (name, value) := cs.span (· != '=')
  .long (String.ofList name)
    (match value with
    | [] => none
    | _ :: value => some (String.ofList value))

/-- The form of an argument; a single dash is not an option. -/
def Shape.ofArgument (arg : String) : Shape :=
  match arg.toList with
  | ['-', '-'] => .mark
  | '-' :: '-' :: cs => longShape cs
  | '-' :: c :: cs => .letters (c :: cs)
  | _ => .plain

structure Given where
  /-- The options by their long names, with their values. -/
  options : List (String × String) := []
  operands : List String := []
  /-- An option whose value is the next argument. -/
  awaiting? : Option Switch := none
  /-- Whether only operands follow. -/
  isMarked : Bool := false

namespace Given

def has (g : Given) (name : String) : Bool := (g.options.lookup name).isSome

def value? (g : Given) (name : String) : Option String := g.options.lookup name

def note (s : Switch) (value : String) (g : Given) : Except Refusal Given :=
  match s.role with
  | .help => .error .help
  | .version => .error .version
  | .toggle =>
    if g.has s.long then .error .usage else .ok { g with options := (s.long, value) :: g.options }
  | .setting accepts =>
    if g.has s.long || !accepts value then .error .usage
    else .ok { g with options := (s.long, value) :: g.options, awaiting? := none }

def noteOperand (grammar : Grammar) (operand : String) (g : Given) : Except Refusal Given :=
  if grammar.operandLimit.all (g.operands.length < ·) && grammar.acceptsOperand operand then
    .ok { g with operands := g.operands ++ [operand] }
  else .error .usage

def noteLong (grammar : Grammar) (name : String) (value? : Option String) (g : Given) :
    Except Refusal Given :=
  match grammar.switches.find? (·.long == name), value? with
  | none, _ => .error .usage
  | some s, some value => if s.takesValue then g.note s value else .error .usage
  | some s, none => if s.takesValue then .ok { g with awaiting? := some s } else g.note s ""

/-- Notes options under their letters; behind one that takes a value, the other letters are the
value. -/
def noteLetters (grammar : Grammar) : List Char → Given → Except Refusal Given
  | [], g => .ok g
  | c :: cs, g =>
    match grammar.switches.find? (·.letter? == some c) with
    | none => .error .usage
    | some s =>
      if s.takesValue then
        match cs with
        | [] => .ok { g with awaiting? := some s }
        | '=' :: value | value => g.note s (String.ofList value)
      else do noteLetters grammar cs (← g.note s "")

def take (grammar : Grammar) (arg : String) (g : Given) : Except Refusal Given :=
  if g.isMarked then g.noteOperand grammar arg
  else
    match Shape.ofArgument arg, g.awaiting? with
    | .plain, some s => g.note s arg
    | _, some _ => .error .usage
    | .plain, none => g.noteOperand grammar arg
    | .mark, none => .ok { g with isMarked := true }
    | .long name value?, none => g.noteLong grammar name value?
    | .letters cs, none => g.noteLetters grammar cs

/-- Whether an argument is the word at which another command starts. -/
def startsCommand (grammar : Grammar) (arg : String) (g : Given) : Bool :=
  !g.isMarked && g.awaiting?.isNone && grammar.commands.contains arg

def takeAll (grammar : Grammar) : List String → Given → Except Refusal (Given × List String)
  | [], g => if g.awaiting?.isSome then .error .usage else .ok (g, [])
  | arg :: rest, g =>
    if g.startsCommand grammar arg then .ok (g, arg :: rest)
    else do takeAll grammar rest (← g.take grammar arg)

end Given

/-- What arguments give, and the arguments of another command behind them. -/
def Grammar.read (grammar : Grammar) (args : List String) :
    Except Refusal (Given × List String) := Given.takeAll grammar args {}

end MeetingLedger.CommandLine
