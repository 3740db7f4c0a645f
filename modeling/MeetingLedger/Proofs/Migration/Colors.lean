import Mathlib.Tactic.IntervalCases
import MeetingLedger.Migration.ColorNormalization
import MeetingLedger.Proofs.Ledger.Agreement
import MeetingLedger.Proofs.Migration.Run
import MeetingLedger.Proofs.Text.Character
import MeetingLedger.Schema.Declaration

/-!
# Colors in lowercase

The step that brings colors into lowercase is a change of values: to change the events and to
replay them is to replay them and to change the models. Which events are refused, and why, stays
the same.
-/

namespace MeetingLedger

open Schema Migration

/-- The digits of colors, each with the one that is written for it. -/
def colorDigits : List (Char × Char) :=
  [('0', '0'), ('1', '1'), ('2', '2'), ('3', '3'), ('4', '4'), ('5', '5'), ('6', '6'), ('7', '7'),
    ('8', '8'), ('9', '9'), ('a', 'a'), ('b', 'b'), ('c', 'c'), ('d', 'd'), ('e', 'e'), ('f', 'f'),
    ('A', 'a'), ('B', 'b'), ('C', 'c'), ('D', 'd'), ('E', 'e'), ('F', 'f')]

def lowerDigit? (c : Char) : Option Char := (colorDigits.find? (·.1 == c)).map (·.2)

/-- What is written for a color: a number sign and six digits, each by itself. -/
def lowerColor? (s : String) : Option String :=
  match s.toList with
  | '#' :: cs =>
    if cs.length = 6 then (cs.mapM lowerDigit?).map fun ds => String.ofList ('#' :: ds) else none
  | _ => none

def Json.lowered : Json → Json
  | .string s => .string ((lowerColor? s).getD s)
  | v => v

/-- Whether a registry declares a field as a single color. -/
def Schema.Registry.isColorField (r : Registry) (collection field : String) : Bool :=
  (r.collections.get? collection).any fun c =>
    c.fields.any fun f => f.name == field && f.type == .scalar .color

def Instance.lowered (r : Registry) (collection : String) (i : Instance) : Instance :=
  i.mapValues fun name v => if r.isColorField collection name then v.lowered else v

/-- The history with the colors of all models in lowercase, deleted models included. -/
def History.lowered (r : Registry) (h : History) : History :=
  ⟨h.models.mapValues fun f m => { m with fields := m.fields.lowered r f.collection }⟩

def Event.lowered (r : Registry) : Event → Event
  | .create f fields => .create f (fields.lowered r f.collection)
  | .update f fields => .update f (fields.lowered r f.collection)
  | e => e

namespace Json

theorem isNull_lowered (v : Json) : v.lowered.isNull = v.isNull := by
  cases v <;> rfl

theorem array?_lowered (v : Json) : v.lowered.array? = v.array? := by
  cases v <;> rfl

end Json

namespace Instance

variable (r : Registry) (collection : String)

theorem get?_lowered (i : Instance) (name : String) :
    (i.lowered r collection).get? name =
      (i.get? name).map fun v => if r.isColorField collection name then v.lowered else v :=
  SortedMap.get?_mapValues _ i name

theorem contains_lowered (i : Instance) (name : String) :
    (i.lowered r collection).contains name = i.contains name := by
  rw [SortedMap.contains, SortedMap.contains, get?_lowered, Option.isSome_map]

theorem listAt?_lowered (i : Instance) (name : String) :
    (i.lowered r collection).listAt? name = i.listAt? name := by
  rw [listAt?, listAt?, get?_lowered]
  cases i.get? name with
  | none => rfl
  | some v =>
    simp only [Option.map_some]
    split
    · exact v.array?_lowered
    · rfl

theorem lowered_insert_array (i : Instance) (name : String) (items : List Json) :
    Instance.lowered r collection (i.insert name (.array items)) =
      (i.lowered r collection).insert name (.array items) := by
  refine SortedMap.ext_get? fun key => ?_
  rw [get?_lowered, SortedMap.get?_insert, SortedMap.get?_insert, get?_lowered]
  by_cases hkey : key = name
  · simp [hkey, Json.lowered]
  · simp [hkey]

theorem addValues_lowered (adds : List (String × List Json)) (i : Instance) :
    addValues adds (i.lowered r collection) =
      ((addValues adds i).1.lowered r collection, (addValues adds i).2) := by
  induction adds generalizing i with
  | nil => rfl
  | cons e adds ih =>
    obtain ⟨field, values⟩ := e
    rw [addValues, addValues, listAt?_lowered]
    cases i.listAt? field with
    | none => rfl
    | some items =>
      dsimp only
      rw [← lowered_insert_array, ih]

theorem removeValues_lowered (removes : List (String × List Json)) (i : Instance) :
    removeValues removes (i.lowered r collection) =
      ((removeValues removes i).1.lowered r collection, (removeValues removes i).2) := by
  induction removes generalizing i with
  | nil => rfl
  | cons e removes ih =>
    obtain ⟨field, values⟩ := e
    rw [removeValues, removeValues, contains_lowered, listAt?_lowered]
    split
    · cases i.listAt? field with
      | none => rfl
      | some items =>
        dsimp only
        rw [← lowered_insert_array, ih]
    · exact ih i

theorem changeLists_lowered (add remove : ListChanges) (i : Instance) :
    (i.lowered r collection).changeLists add remove =
      ((i.changeLists add remove).1.lowered r collection, (i.changeLists add remove).2) := by
  rw [changeLists, changeLists, addValues_lowered]
  cases addValues add.entries i with
  | mk j failed =>
    cases failed with
    | none => exact removeValues_lowered r collection remove.entries j
    | some field => rfl

theorem merge_lowered (i fields : Instance) :
    (i.lowered r collection).merge (fields.lowered r collection) =
      (i.merge fields).lowered r collection := by
  refine SortedMap.ext_get? fun name => ?_
  -- A merge leaves the id alone, even if both sides have one.
  by_cases hid : name = "id"
  · rw [hid, get?_merge_id, get?_lowered, get?_lowered, get?_merge_id]
  · rw [get?_merge _ _ hid, get?_lowered, get?_lowered, get?_lowered, get?_merge _ _ hid]
    cases fields.get? name with
    | none => rfl
    | some v =>
      simp only [Option.map_some, Option.elim_some]
      by_cases hnull : v.isNull = true
      · split <;> simp [Json.isNull_lowered, hnull]
      · split <;> simp [Json.isNull_lowered, hnull]

/-- A new model has its colors in lowercase exactly as the event that created it. -/
theorem created_lowered (f : Fqid) (fields : Instance) :
    History.created f (fields.lowered r f.collection) =
      (History.created f fields).lowered r f.collection := by
  rw [History.created, History.created, ← merge_lowered]
  congr 1
  refine SortedMap.ext_get? fun name => ?_
  rw [get?_lowered, SortedMap.get?_insert]
  by_cases hid : name = "id"
  · simp [hid, Json.ofUInt64, Json.lowered]
  · simp [hid]

end Instance

namespace History

variable (r : Registry) (h : History)

theorem models_lowered (f : Fqid) : (h.lowered r).models.get? f =
    (h.models.get? f).map fun m => { m with fields := m.fields.lowered r f.collection } :=
  SortedMap.get?_mapValues _ h.models f

theorem contains_models_lowered (f : Fqid) :
    (h.lowered r).models.contains f = h.models.contains f := by
  rw [SortedMap.contains, SortedMap.contains, models_lowered, Option.isSome_map]

theorem get?_lowered (f : Fqid) :
    (h.lowered r).get? f = (h.get? f).map (Instance.lowered r f.collection) := by
  rw [get?, get?, models_lowered]
  rcases h.models.get? f with _ | ⟨i, _ | _⟩ <;> rfl

theorem lowered_put (f : Fqid) (i : Instance) (deleted : Bool) :
    (h.put f i deleted).lowered r = (h.lowered r).put f (i.lowered r f.collection) deleted := by
  refine congrArg History.mk (SortedMap.ext_get? fun g => ?_)
  refine (models_lowered r (h.put f i deleted) g).trans ?_
  rw [put, SortedMap.get?_insert, SortedMap.get?_insert, models_lowered]
  by_cases hg : g = f
  · simp [hg]
  · simp [hg]

/-- An event with its colors in lowercase does to a history in lowercase what the event did to the
history, and is refused for the same reason. -/
theorem apply_lowered (e : Event) :
    (h.lowered r).apply (e.lowered r) = ⟨(h.apply e).history.lowered r, (h.apply e).refusal⟩ := by
  cases e with
  | create f fields =>
    rw [Event.lowered, apply, apply, contains_models_lowered, Instance.created_lowered]
    split
    · rfl
    · rw [lowered_put]
  | update f fields =>
    rw [Event.lowered, apply, apply, get?_lowered]
    cases h.get? f with
    | none => rfl
    | some i => simp only [Option.map_some, Instance.merge_lowered, lowered_put]
  | listUpdate f add remove =>
    rw [Event.lowered, apply, apply, get?_lowered]
    · cases h.get? f with
      | none => rfl
      | some i => simp only [Option.map_some, Instance.changeLists_lowered, lowered_put]
    · simp
    · simp
  | delete f =>
    rw [Event.lowered, apply, apply, get?_lowered]
    · cases h.get? f with
      | none => rfl
      | some i => simp only [Option.map_some, lowered_put]
    · simp
    · simp
  | restore f =>
    rw [Event.lowered, apply, apply, models_lowered]
    · rcases h.models.get? f with _ | ⟨i, _ | _⟩
      · rfl
      · rfl
      · simp only [Option.map_some, lowered_put, if_true]
    · simp
    · simp

theorem applyAll_lowered (es : List Event) :
    (h.lowered r).applyAll (es.map (Event.lowered r)) =
      ⟨(h.applyAll es).history.lowered r, (h.applyAll es).refusal⟩ := by
  induction es generalizing h with
  | nil => rfl
  | cons e es ih =>
    rw [List.map_cons, applyAll, applyAll, apply_lowered]
    rcases h.apply e with ⟨h₁, _ | refusal⟩
    · exact ih h₁
    · rfl

theorem lowered_empty : empty.lowered r = empty := rfl

end History

namespace Migration.ColorNormalization

theorem any_isAsciiUpper_lowercase (s : String) :
    (lowercase s).toList.any isAsciiUpper = false := by
  rw [lowercase, String.toList_map, List.any_map, List.any_eq_false]
  intro c _
  simp [isAsciiUpper_toLower]

theorem lowercase_eq_self {s : String} (h : s.toList.any isAsciiUpper = false) :
    lowercase s = s := by
  rw [lowercase, ← String.toList_inj, String.toList_map]
  refine (List.map_congr_left fun c hc => ?_).trans (List.map_id' s.toList)
  exact toLower_eq_self (by simpa using List.any_eq_false.1 h c hc)

theorem mem_colorDigits_of_hexDigit? {c : Char} (h : (hexDigit? c).isSome = true) :
    c ∈ colorDigits.map (·.1) := by
  have hbounds : 48 ≤ c.toNat ∧ c.toNat ≤ 57 ∨ 97 ≤ c.toNat ∧ c.toNat ≤ 102 ∨
      65 ≤ c.toNat ∧ c.toNat ≤ 70 := by
    rw [hexDigit?] at h
    split at h
    · rename_i hdigit
      exact .inl (bounds_of_isAsciiDigit hdigit)
    · split at h
      · rename_i hlower
        simp only [Bool.and_eq_true, decide_eq_true_eq, Char.le_def,
          UInt32.le_iff_toNat_le] at hlower
        exact .inr (.inl hlower)
      · split at h
        · rename_i hupper
          simp only [Bool.and_eq_true, decide_eq_true_eq, Char.le_def,
            UInt32.le_iff_toNat_le] at hupper
          exact .inr (.inr hupper)
        · cases h
  rw [← Char.ofNat_toNat c]
  generalize c.toNat = n at hbounds
  rcases hbounds with ⟨hlow, hhigh⟩ | ⟨hlow, hhigh⟩ | ⟨hlow, hhigh⟩
  · interval_cases n <;> decide
  · interval_cases n <;> decide
  · interval_cases n <;> decide

theorem lowerDigit?_eq (c : Char) :
    lowerDigit? c = if (hexDigit? c).isSome then some c.toLower else none := by
  split
  · rename_i hdigit
    have hall : ∀ e ∈ colorDigits, lowerDigit? e.1 = some e.1.toLower := by decide
    obtain ⟨e, he, rfl⟩ := List.mem_map.1 (mem_colorDigits_of_hexDigit? hdigit)
    exact hall e he
  · rename_i hother
    rw [lowerDigit?, Option.map_eq_none_iff, List.find?_eq_none]
    have hall : ∀ e ∈ colorDigits, (hexDigit? e.1).isSome = true := by decide
    rintro e he heq
    rw [beq_iff_eq] at heq
    exact hother (heq ▸ hall e he)

theorem mapM_lowerDigit? (cs : List Char) :
    cs.mapM lowerDigit? =
      if cs.all fun c => (hexDigit? c).isSome then some (cs.map Char.toLower) else none := by
  induction cs with
  | nil => rfl
  | cons c cs ih =>
    rw [List.mapM_cons, ih, lowerDigit?_eq, List.all_cons, List.map_cons]
    cases (hexDigit? c).isSome with
    | false => rfl
    | true => cases cs.all fun c => (hexDigit? c).isSome <;> rfl

/-- What the step takes for a color and writes instead of it, digit by digit. -/
theorem lowerColor?_eq (s : String) :
    lowerColor? s = if isColorInEitherCase s then some (lowercase s) else none := by
  rw [lowerColor?, isColorInEitherCase]
  cases hs : s.toList with
  | nil => rfl
  | cons c cs =>
    by_cases hhash : c = '#'
    · subst hhash
      have hlower : String.ofList ('#' :: cs.map Char.toLower) = lowercase s := by
        rw [← String.toList_inj, lowercase, String.toList_map, hs, String.toList_ofList]
        rfl
      simp only [mapM_lowerDigit?]
      by_cases hlength : cs.length = 6
      · rw [if_pos hlength, beq_iff_eq.2 hlength, Bool.true_and]
        cases cs.all fun c => (hexDigit? c).isSome with
        | false => rfl
        | true => simp only [if_true, Option.map_some, hlower]
      · rw [if_neg hlength, beq_eq_false_iff_ne.2 hlength]
        rfl
    · simp [hhash]

theorem getD_normalized? (v : Json) : (normalized? v).getD v = v.lowered := by
  cases v with
  | string s =>
    rw [normalized?, Json.lowered, lowerColor?_eq]
    cases hcolor : isColorInEitherCase s with
    | false => rfl
    | true =>
      cases hupper : s.toList.any isAsciiUpper with
      | false => simp [lowercase_eq_self hupper]
      | true => simp
  | _ => rfl

theorem normalized?_lowered (v : Json) : normalized? v.lowered = none := by
  cases v with
  | string s =>
    rw [Json.lowered, lowerColor?_eq]
    cases hcolor : isColorInEitherCase s with
    | false => simp [normalized?, hcolor]
    | true => simp only [if_true, Option.getD_some, normalized?, any_isAsciiUpper_lowercase,
        Bool.and_false, Bool.false_eq_true, if_false]
  | _ => rfl

theorem lowered_lowered (v : Json) : v.lowered.lowered = v.lowered := by
  rw [← getD_normalized? v.lowered, normalized?_lowered, Option.getD_none]

theorem contains_ofRegistry (r : Registry) (collection field : String) :
    (((ColorFields.ofRegistry r).get? collection).getD []).contains field =
      r.isColorField collection field := by
  have hkept : ((ColorFields.ofRegistry r).get? collection).getD [] =
      ((r.collections.get? collection).map colorFields).getD [] := by
    rw [ColorFields.ofRegistry, SortedMap.get?_filter, SortedMap.get?_mapValues]
    cases r.collections.get? collection with
    | none => rfl
    | some c => cases hnames : colorFields c <;> simp [Option.filter, hnames]
  rw [hkept, Registry.isColorField]
  cases r.collections.get? collection with
  | none => rfl
  | some c =>
    rw [Option.map_some, Option.getD_some, colorFields, List.contains_eq_any_beq, List.any_map,
      List.any_filter, Option.any_some]
    congr 1
    funext f
    rw [Function.comp_apply, Bool.and_comm, Bool.beq_comm]

/-- The step rewrites the fields of a collection as a whole. -/
theorem normalizeFields_eq_lowered (r : Registry) (collection : String) (fields : Instance) :
    normalizeFields (((ColorFields.ofRegistry r).get? collection).getD []) fields =
      fields.lowered r collection := by
  simp only [normalizeFields, contains_ofRegistry, getD_normalized?, Instance.lowered]

theorem lowered_of_not_needsNormalizing {r : Registry} {collection : String} {fields : Instance}
    (h : needsNormalizing (((ColorFields.ofRegistry r).get? collection).getD []) fields = false) :
    fields.lowered r collection = fields := by
  rw [← normalizeFields_eq_lowered]
  refine SortedMap.ext_entries ((List.map_congr_left fun e he => ?_).trans (List.map_id' _))
  have hkept := List.any_eq_false.1 h e he
  dsimp only
  split
  · rename_i hcolor
    have hnone : normalized? e.2 = none := by
      rw [hcolor, Bool.true_and, Bool.not_eq_true, Option.isSome_eq_false_iff] at hkept
      exact Option.isNone_iff_eq_none.1 hkept
    rw [hnone, Option.getD_none]
  · rfl

def stepFrom (colors : ColorFields) : EventStep := { step with state := colors }

section Run

variable (r : Registry) (colors : ColorFields)

theorem exists_migrateEvent (e : Event) (h : History) : ∃ answer,
    migrateEvent e h (.ofRegistry r) = .done answer (.ofRegistry r) ∧
      answer.getD [e] = [e.lowered r] := by
  have hanswer (f : Fqid) (fields : Instance) (make : Instance → Event) :
      (if needsNormalizing (((ColorFields.ofRegistry r).get? f.collection).getD []) fields then
        some [make (normalizeFields (((ColorFields.ofRegistry r).get? f.collection).getD [])
          fields)] else none).getD [make fields] = [make (fields.lowered r f.collection)] := by
    split
    · rw [normalizeFields_eq_lowered, Option.getD_some]
    · rename_i hkept
      rw [lowered_of_not_needsNormalizing (Bool.not_eq_true _ ▸ hkept), Option.getD_none]
  cases e with
  | create f fields => exact ⟨_, rfl, hanswer f fields (.create f)⟩
  | update f fields => exact ⟨_, rfl, hanswer f fields (.update f)⟩
  | listUpdate f add remove => exact ⟨none, rfl, rfl⟩
  | delete f => exact ⟨none, rfl, rfl⟩
  | restore f => exact ⟨none, rfl, rfl⟩

theorem migrateEvents_eq (h : History) (es : List Event) {s : (stepFrom colors).State}
    (hs : s = ColorFields.ofRegistry r) :
    (stepFrom colors).migrateEvents h es s = .done (es.map (Event.lowered r)) s := by
  subst hs
  induction es with
  | nil => rfl
  | cons e es ih =>
    obtain ⟨answer, hanswer, hevents⟩ := exists_migrateEvent r e h
    refine EventStep.migrateEvents_cons_eq_done_iff.2 ⟨answer, _, _, hanswer, ih, ?_⟩
    rw [hevents]
    rfl

theorem migratePosition_eq (h : History) (p : Position) {s : (stepFrom colors).State}
    (hs : s = ColorFields.ofRegistry r) :
    (stepFrom colors).migratePosition h p s = .done (p.events.map (Event.lowered r)) s :=
  EventStep.migratePosition_eq_done_iff.2
    ⟨_, _, [], migrateEvents_eq r colors h p.events hs, rfl, (List.append_nil _).symm⟩

/-- The positions with their colors in lowercase, those without events left out. -/
def loweredPositions (ps : List Position) : List Position :=
  (ps.filter fun p => !p.events.isEmpty).map fun p =>
    { p with events := p.events.map (Event.lowered r) }

/-- The step gets exactly as far as replay does. -/
theorem result_migratePositions (h : History) (ps : List Position) {s : (stepFrom colors).State}
    (hs : s = ColorFields.ofRegistry r) :
    ((stepFrom colors).migratePositions (h.lowered r) ps s).result =
      match (h.applyAll (ps.flatMap (·.events))).refusal with
      | some e => .error (.history e)
      | none => .ok (loweredPositions r ps) := by
  induction ps generalizing h with
  | nil => rfl
  | cons p ps ih =>
    rw [EventStep.migratePositions, migratePosition_eq r colors _ p hs, List.flatMap_cons,
      History.applyAll_append]
    simp only [Outcome.andThen, Outcome.done, History.applyAll_lowered]
    rcases h.applyAll p.events with ⟨h₁, _ | refusal⟩
    · -- The history of the step is that of replay in lowercase, so that the rest can be run from it.
      dsimp only
      rw [ih h₁]
      cases (h₁.applyAll (ps.flatMap (·.events))).refusal with
      | some e => rfl
      | none =>
        cases hempty : p.events.isEmpty with
        | true => simp [loweredPositions, hempty]
        | false => simp [loweredPositions, hempty]
    · rfl

theorem result_run (ps : List Position) : ((stepFrom colors).run r ps).1 =
    match (History.empty.applyAll (ps.flatMap (·.events))).refusal with
    | some e => .error (.history e)
    | none => .ok (loweredPositions r ps) :=
  result_migratePositions r colors .empty ps rfl

theorem flatMap_loweredPositions (ps : List Position) :
    (loweredPositions r ps).flatMap (·.events) =
      (ps.flatMap (·.events)).map (Event.lowered r) := by
  induction ps with
  | nil => rfl
  | cons p ps ih =>
    rw [List.flatMap_cons, List.map_append, ← ih]
    cases hempty : p.events.isEmpty with
    | true => simp [loweredPositions, List.isEmpty_iff.1 hempty]
    | false => simp [loweredPositions, hempty]

theorem lowered_lowered_instance (collection : String) (i : Instance) :
    (i.lowered r collection).lowered r collection = i.lowered r collection := by
  refine SortedMap.ext_get? fun name => ?_
  rw [Instance.get?_lowered, Instance.get?_lowered, Option.map_map]
  congr 1
  funext v
  rw [Function.comp_apply]
  split
  · exact lowered_lowered v
  · rfl

theorem lowered_lowered_event (e : Event) : (e.lowered r).lowered r = e.lowered r := by
  cases e with
  | create f fields => rw [Event.lowered, Event.lowered, lowered_lowered_instance]
  | update f fields => rw [Event.lowered, Event.lowered, lowered_lowered_instance]
  | _ => rfl

/-- Positions with their colors in lowercase stay as they are. -/
theorem loweredPositions_loweredPositions (ps : List Position) :
    loweredPositions r (loweredPositions r ps) = loweredPositions r ps := by
  rw [loweredPositions, List.filter_eq_self.2, loweredPositions, List.map_map]
  · refine List.map_congr_left fun p _ => ?_
    simp [Function.comp_def, lowered_lowered_event]
  · intro p hp
    obtain ⟨q, hq, rfl⟩ := List.mem_map.1 hp
    simpa using (List.mem_filter.1 hq).2

end Run

/-- The step fails exactly if the positions do not replay, and for the same reason. Otherwise the
positions that it returns replay to the same history with all colors in lowercase, and to run the
step on them changes nothing, whatever an earlier run left in it. -/
theorem run_lowers_colors (r : Registry) (colors : ColorFields) (ps : List Position) :
    match History.replay ps with
    | .error e => ((stepFrom colors).run r ps).1 = .error (.history e)
    | .ok h => ∃ out, ((stepFrom colors).run r ps).1 = .ok out ∧
        History.replay out = .ok (h.lowered r) ∧
        ∀ colors', ((stepFrom colors').run r out).1 = .ok out := by
  have hrun := fun colors => result_run r colors ps
  cases hreplay : History.empty.applyAll (ps.flatMap (·.events)) with
  | mk h refusal =>
    rw [hreplay] at hrun
    cases refusal with
    | some e =>
      rw [History.replay, hreplay]
      exact hrun colors
    | none =>
      have hout : History.replay (loweredPositions r ps) = .ok (h.lowered r) := by
        rw [replay_eq_ok_iff, flatMap_loweredPositions, ← History.lowered_empty r,
          History.applyAll_lowered, hreplay]
      rw [History.replay, hreplay]
      refine ⟨loweredPositions r ps, hrun colors, hout, fun colors' => ?_⟩
      rw [result_run, replay_eq_ok_iff.1 hout, loweredPositions_loweredPositions]

section Badges

def badgeModels : String :=
  "badge:\n  id:\n    type: number\n    required: true\n  hue:\n    type: color\n" ++
    "  label:\n    type: string\n"

/-- A badge with one text in both fields, one without a color, and the first one deleted. -/
def badgePositions : List Position :=
  let fields (text : String) : Instance :=
    ((∅ : Instance).insert "hue" (.string text)).insert "label" (.string text)
  [⟨1, 1, none, [.create ⟨"badge", 1⟩ (fields "#0AbCdE"), .create ⟨"badge", 2⟩ (fields "#0AbCdG")]⟩,
    ⟨2, 2, none, [.delete ⟨"badge", 1⟩]⟩]

def textOf? (h : History) (id : UInt64) (field : String) : Option String :=
  ((h.getIncludingDeleted? ⟨"badge", id⟩).bind (·.get? field)).bind Json.string?

theorem run_lowers_colors_of_badges :
    ∃ r out h, Registry.ofText badgeModels = .ok r ∧
      ((stepFrom ∅).run r badgePositions).1 = .ok out ∧ History.replay out = .ok h ∧
      textOf? h 1 "hue" = some "#0abcde" ∧ textOf? h 1 "label" = some "#0AbCdE" ∧
      textOf? h 2 "hue" = some "#0AbCdG" := by
  have hread : (Registry.ofText badgeModels).toOption.any (fun r =>
      (History.replay badgePositions).toOption.any fun h =>
        textOf? (h.lowered r) 1 "hue" == some "#0abcde" &&
        textOf? (h.lowered r) 1 "label" == some "#0AbCdE" &&
        textOf? (h.lowered r) 2 "hue" == some "#0AbCdG") = true := by
    decide +kernel
  obtain ⟨r, hr, hhistory⟩ := exists_eq_ok_of_any hread
  obtain ⟨h, hreplay, htexts⟩ := exists_eq_ok_of_any hhistory
  simp only [Bool.and_eq_true, beq_iff_eq] at htexts
  have hruns := run_lowers_colors r ∅ badgePositions
  rw [hreplay] at hruns
  obtain ⟨out, hrun, hout, -⟩ := hruns
  exact ⟨r, out, h.lowered r, hr, hrun, hout, htexts.1.1, htexts.1.2, htexts.2⟩

end Badges

end Migration.ColorNormalization

end MeetingLedger
