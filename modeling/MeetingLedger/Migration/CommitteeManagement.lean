import MeetingLedger.Dataset.Visibility
import MeetingLedger.Migration.Step

/-!
# Managers of committees

The step to migration index 2. Users used to hold a level of management for each committee in a
field named after it; now they list the committees that they manage, and each committee lists its
managers.
-/

namespace MeetingLedger.Migration.CommitteeManagement

/-- The former list of the committees for which a user holds a level. -/
def levelsField : String := "committee_$_management_level"

/-- The committees that a user manages. -/
def managedField : String := "committee_management_ids"

def managersField : String := "manager_ids"

def canManage : String := "can_manage"

/-- The digits, of any script, in the name of a former field for one committee. -/
def committeeDigits? (field : String) : Option (List Char) := do
  let rest ← dropLiteral? "committee_$".toList field.toList
  let digits := rest.takeWhile isDecimalDigit
  if !digits.isEmpty && rest.dropWhile isDecimalDigit == "_management_level".toList then
    some digits
  else none

def isFormer (field : String) : Bool := field == levelsField || (committeeDigits? field).isSome

/-- The id that ASCII digits spell, leading zeros allowed. -/
def committeeId? (digits : List Char) : Option UInt64 :=
  if digits.all isAsciiDigit then
    let n := Nat.ofDigitChars 10 digits 0
    if n < UInt64.size then some (UInt64.ofNat n) else none
  else none

def level? : Json → Option Bool
  | .null => some false
  | .string s => if s = canManage then some true else none
  | _ => none

/-- The committee that a former field is about and whether the user manages it; nothing for
another field. -/
def readLevel (user : Fqid) (field : String) (v : Json) :
    Except StepError (Option (UInt64 × Bool)) :=
  match committeeDigits? field with
  | none => .ok none
  | some digits =>
    match committeeId? digits, level? v with
    | none, _ => .error (.invalid user (.committeeId field))
    | some _, none => .error (.invalid user (.managementLevel field v))
    | some committee, some manages => .ok (some (committee, manages))

/-- What the step remembers within one position. -/
structure State where
  /-- The committees of the users whose levels changed. -/
  managed : SortedMap UInt64 IdSet
  /-- For each committee the users whose part changed, and whether they manage it now. -/
  managers : SortedMap UInt64 (SortedMap UInt64 Bool)
  /-- The committees created in the position. -/
  created : IdSet

def State.initial : State := ⟨∅, ∅, ∅⟩

namespace State

/-- Takes down whether a user manages a committee from now on. -/
def setManager (s : State) (user : UInt64) (manages : Bool) (committee : UInt64) : State :=
  { s with managers := s.managers.update committee ∅ (·.insert user manages) }

def setManagers (s : State) (user : UInt64) (manages : Bool) (committees : List UInt64) : State :=
  committees.foldl (fun s committee => s.setManager user manages committee) s

/-- The committees that a user manages before an event, going by the position so far and else by
a recorded instance. -/
def managedBefore (s : State) (user : UInt64) (recorded : Option Instance) : IdSet :=
  (s.managed.get? user).getD
    (IdSet.ofIds ((recorded.map fun i => i.idsAt managedField).getD []))

end State

/-- The set of committees after a change of levels, one by one. -/
def applyLevels (before : IdSet) (levels : List (UInt64 × Bool)) : IdSet :=
  levels.foldl
    (fun ids l => if l.2 then ids.insert l.1 () else SortedMap.erase ids l.1) before

def writeManaged (isCreation : Bool) (managed : IdSet) (fields : Instance) : Instance :=
  if managed.isEmpty then
    if isCreation then fields.erase managedField else fields.insert managedField .null
  else fields.insert managedField (.ofIds managed.keys)

/-- The fields that a creation or an update of a user writes instead, `none` if it writes no
former field. -/
def migrateFields (user : Fqid) (fields : Instance) (isCreation : Bool) (h : History)
    (s : State) : Outcome State (Option Instance) :=
  match fields.entries.mapM fun e => readLevel user e.1 e.2 with
  | .error e => ⟨.error e, s⟩
  | .ok found =>
    let levels := found.filterMap id
    let kept := fields.filter fun name _ => !isFormer name
    if !fields.keys.any isFormer then .done none s
    else if levels.isEmpty then .done (some kept) s
    else
      let before := if isCreation then IdSet.ofIds (fields.idsAt managedField)
        else s.managedBefore user.id (h.get? user)
      let after := applyLevels before levels
      let s := s.setManagers user.id true (after.keys.filter (!before.contains ·))
      let s := s.setManagers user.id false (before.keys.filter (!after.contains ·))
      .done (some (writeManaged isCreation after kept))
        { s with managed := s.managed.insert user.id after }

/-- The events instead of a list update of a user, `none` if it touches no former field. -/
def migrateLists (user : Fqid) (add remove : ListChanges) : Option (List Event) :=
  if (add.keys ++ remove.keys).any isFormer then
    let add := add.filter fun name _ => !isFormer name
    let remove := remove.filter fun name _ => !isFormer name
    if add.isEmpty && remove.isEmpty then some [] else some [.listUpdate user add remove]
  else none

def migrateUserEvent (h : History) (s : State) : Event → Outcome State (Option (List Event))
  | .create f fields =>
    (migrateFields f fields true h s).andThen fun r s =>
      .done (r.map fun fields => [.create f fields]) s
  | .update f fields =>
    (migrateFields f fields false h s).andThen fun r s =>
      .done (r.map fun fields => if fields.isEmpty then [] else [.update f fields]) s
  | .listUpdate f add remove => .done (migrateLists f add remove) s
  | .delete f =>
    .done none (s.setManagers f.id false (s.managedBefore f.id (h.get? f)).keys)
  | .restore f =>
    .done none (s.setManagers f.id true (s.managedBefore f.id (h.getIncludingDeleted? f)).keys)

def migrateEvent (e : Event) (h : History) (s : State) : Outcome State (Option (List Event)) :=
  if e.fqid.collection = "user" then migrateUserEvent h s e
  else
    match e with
    | .create f _ =>
      if f.collection = "committee" then
        .done none { s with created := s.created.insert f.id () }
      else .done none s
    | _ => .done none s

/-- The change to the managers of a committee, unless it does not exist. -/
def managersEvent? (h : History) (created : IdSet) (committee : UInt64)
    (users : SortedMap UInt64 Bool) : Option Event :=
  let f : Fqid := ⟨"committee", committee⟩
  if h.hasLive f || created.contains committee then
    let side := fun (manages : Bool) =>
      let ids := (users.filter fun _ m => m == manages).keys
      if ids.isEmpty then (∅ : ListChanges)
      else (∅ : ListChanges).insert managersField (ids.map Json.ofUInt64)
    some (.listUpdate f (side true) (side false))
  else none

/-- The changes to the managers of all committees concerned. -/
def additionalEvents (h : History) (s : State) : Outcome State (List Event) :=
  .done (s.managers.entries.filterMap fun e => managersEvent? h s.created e.1 e.2)
    { s with managers := ∅ }

/-- The step itself. It starts every position afresh. -/
def step : EventStep where
  target := 2
  name := "user_committee_management"
  State := State
  state := .initial
  openPosition := fun _ _ => .initial
  migrateEvent
  additionalEvents

end MeetingLedger.Migration.CommitteeManagement
