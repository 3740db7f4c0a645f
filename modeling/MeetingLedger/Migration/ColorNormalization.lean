import MeetingLedger.Migration.Step

/-!
# Colors in lowercase

The step to migration index 3. Colors used to be written in either case; now they are written in
lowercase.
-/

namespace MeetingLedger.Migration.ColorNormalization

open Schema

/-- A number sign and six hexadecimal digits in either case. -/
def isColorInEitherCase (s : String) : Bool :=
  match s.toList with
  | '#' :: cs => cs.length == 6 && cs.all fun c => (hexDigit? c).isSome
  | _ => false

def lowercase (s : String) : String := s.map Char.toLower

/-- A color that is not in lowercase, brought into it. -/
def normalized? : Json → Option Json
  | .string s =>
    if isColorInEitherCase s && s.toList.any isAsciiUpper then some (.string (lowercase s))
    else none
  | _ => none

abbrev ColorFields := SortedMap String (List String)

def colorFields (c : Collection) : List String :=
  (c.fields.filter fun f => f.type == .scalar .color).map (·.name)

/-- The color fields of a registry, collections without any left out. -/
def ColorFields.ofRegistry (r : Registry) : ColorFields :=
  (r.collections.mapValues fun _ c => colorFields c).filter fun _ names => !names.isEmpty

def normalizeFields (names : List String) (fields : Instance) : Instance :=
  fields.mapValues fun name v => if names.contains name then (normalized? v).getD v else v

def needsNormalizing (names : List String) (fields : Instance) : Bool :=
  fields.entries.any fun e => names.contains e.1 && (normalized? e.2).isSome

def migrateEvent (e : Event) (_ : History) (colors : ColorFields) :
    Outcome ColorFields (Option (List Event)) :=
  let names := (colors.get? e.fqid.collection).getD []
  match e with
  | .create f fields =>
    .done (if needsNormalizing names fields then
      some [.create f (normalizeFields names fields)] else none) colors
  | .update f fields =>
    .done (if needsNormalizing names fields then
      some [.update f (normalizeFields names fields)] else none) colors
  | _ => .done none colors

/-- The step itself. It learns from the registry which fields hold colors. -/
def step : EventStep where
  target := 3
  name := "color_normalization"
  State := ColorFields
  state := ∅
  prepare := fun r _ => .ofRegistry r
  migrateEvent

end MeetingLedger.Migration.ColorNormalization
