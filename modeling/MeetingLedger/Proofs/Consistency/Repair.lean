import MeetingLedger.Consistency.Checker
import MeetingLedger.Proofs.Dataset.Image

/-!
# Repaired snapshots

Repairs, field by field. A second repair changes nothing, and a repair that leaves the ids alone
keeps a snapshot regular, so that a snapshot that passed a check can be written as a document and
the document passes the same check.
-/

namespace MeetingLedger.Consistency

open Schema

/-- The value that a repair gives to a field: of the declarations with this name, the first one with a
default counts. -/
def defaultOf? (collection : Collection) (name : String) : Option Json :=
  collection.fields.findSome? fun f => if f.name = name then f.default else none

section Instances

theorem get?_erasures (remove : List String) (i : Instance) (name : String) :
    (remove.foldl SortedMap.erase i).get? name = if name ∈ remove then none else i.get? name := by
  induction remove generalizing i with
  | nil => rfl
  | cons field remove ih =>
    rw [List.foldl_cons, ih, SortedMap.get?_erase]
    by_cases hfield : name = field
    · simp [hfield]
    · simp [hfield]

def fillIn (i : Instance) (f : Field) : Instance :=
  match f.default with
  | some v => if i.contains f.name then i else i.insert f.name v
  | none => i

theorem get?_fillIn (i : Instance) (f : Field) (name : String) :
    (fillIn i f).get? name = (i.get? name).or (if f.name = name then f.default else none) := by
  rw [fillIn]
  cases hdefault : f.default with
  | none => simp
  | some v =>
    by_cases hname : f.name = name
    · subst hname
      cases hget : i.get? f.name <;> simp [SortedMap.contains, hget]
    · by_cases hcontains : i.contains f.name = true
      · simp [hname, hcontains]
      · simp [hname, hcontains, SortedMap.get?_insert_of_ne i (Ne.symm hname)]

theorem get?_defaults (fields : List Field) (i : Instance) (name : String) :
    (fields.foldl fillIn i).get? name =
      (i.get? name).or (fields.findSome? fun f => if f.name = name then f.default else none) := by
  induction fields generalizing i with
  | nil => simp
  | cons f fields ih =>
    rw [List.foldl_cons, ih, get?_fillIn, Option.or_assoc, List.findSome?_cons]
    cases (if f.name = name then f.default else none : Option Json) <;> simp

variable (collection : Collection) (remove : List String) (i : Instance)

theorem get?_repairInstance (name : String) : (repairInstance collection remove i).get? name =
    (if name ∈ remove then none else i.get? name).or (defaultOf? collection name) := by
  have hfold : repairInstance collection remove i =
      collection.fields.foldl fillIn (remove.foldl SortedMap.erase i) := rfl
  rw [hfold, get?_defaults, get?_erasures, defaultOf?]

theorem repairInstance_repairInstance :
    repairInstance collection remove (repairInstance collection remove i) =
      repairInstance collection remove i := by
  refine SortedMap.ext_get? fun name => ?_
  rw [get?_repairInstance, get?_repairInstance]
  split
  · rfl
  · rw [Option.or_assoc, Option.or_self]

end Instances

/-- No repair removes an id. -/
def Config.KeepsIds (config : Config) : Prop :=
  ∀ name fields, config.fieldsToRemove.get? name = some fields → "id" ∉ fields

namespace Checker

variable {c : Checker} {s : Snapshot}

def repaired (c : Checker) (name : String) (i : Instance) : Instance :=
  match c.registry.collections.get? name with
  | none => i
  | some collection => repairInstance collection ((c.config.fieldsToRemove.get? name).getD []) i

theorem get?_repair (c : Checker) (s : Snapshot) (name : String) :
    (c.repair s).collections.get? name =
      (s.collections.get? name).map (·.mapValues fun _ i => c.repaired name i) := by
  rw [repair, SortedMap.get?_mapValues]
  congr 1
  funext models
  refine SortedMap.ext_get? fun id => ?_
  cases hcollection : c.registry.collections.get? name <;>
    simp [repaired, hcollection, SortedMap.get?_mapValues]

theorem repaired_repaired (c : Checker) (name : String) (i : Instance) :
    c.repaired name (c.repaired name i) = c.repaired name i := by
  unfold repaired
  cases c.registry.collections.get? name with
  | none => rfl
  | some collection => exact repairInstance_repairInstance ..

theorem repair_repair (c : Checker) (s : Snapshot) : c.repair (c.repair s) = c.repair s := by
  have hcollections : (c.repair (c.repair s)).collections = (c.repair s).collections := by
    refine SortedMap.ext_get? fun name => ?_
    rw [get?_repair, get?_repair, Option.map_map]
    congr 1
    funext models
    refine SortedMap.ext_get? fun id => ?_
    simp [SortedMap.get?_mapValues, Function.comp_def, repaired_repaired]
  exact congrArg (Snapshot.mk s.migrationIndex) hcollections

/-- The id of a model survives a repair that does not remove it. -/
theorem get?_id_repaired (hkeeps : c.config.KeepsIds) {name : String} {i : Instance} {v : Json}
    (hid : i.get? "id" = some v) : (c.repaired name i).get? "id" = some v := by
  unfold repaired
  cases c.registry.collections.get? name with
  | none => exact hid
  | some collection =>
    have hkept : "id" ∉ (c.config.fieldsToRemove.get? name).getD [] := by
      cases hremove : c.config.fieldsToRemove.get? name with
      | none => simp
      | some fields => exact hkeeps name fields hremove
    simp only [get?_repairInstance, if_neg hkept, hid, Option.some_or]

theorem isRegular_repair (hkeeps : c.config.KeepsIds) (hregular : s.IsRegular) :
    (c.repair s).IsRegular := by
  intro name models hmodels
  rw [get?_repair] at hmodels
  obtain ⟨former, hformer, rfl⟩ := Option.map_eq_some_iff.1 hmodels
  obtain ⟨hname, hids⟩ := hregular name former hformer
  refine ⟨hname, fun id i hi => ?_⟩
  rw [SortedMap.get?_mapValues] at hi
  obtain ⟨j, hj, rfl⟩ := Option.map_eq_some_iff.1 hi
  obtain ⟨hpos, hid⟩ := hids id j hj
  exact ⟨hpos, get?_id_repaired hkeeps hid⟩

theorem isRegular_run (hkeeps : c.config.KeepsIds) (hregular : s.IsRegular) :
    (c.run s).1.IsRegular := by
  rw [run]
  cases c.config.repair with
  | false => exact hregular
  | true => exact isRegular_repair hkeeps hregular

/-- A snapshot that was checked is checked again with the same outcome. -/
theorem run_run (c : Checker) (s : Snapshot) : c.run (c.run s).1 = c.run s := by
  unfold run
  cases c.config.repair with
  | false => rfl
  | true => simp [repair_repair]

theorem migrationIndex_run (c : Checker) (s : Snapshot) :
    (c.run s).1.migrationIndex = s.migrationIndex := by
  unfold run
  cases c.config.repair <;> rfl

/-- A model as a check looks at it, after the repair if there is one. -/
def shown (c : Checker) (name : String) (i : Instance) : Instance :=
  if c.config.repair then c.repaired name i else i

theorem get?_run (c : Checker) (s : Snapshot) (name : String) :
    (c.run s).1.collections.get? name =
      (s.collections.get? name).map (·.mapValues fun _ i => c.shown name i) := by
  unfold run shown
  cases c.config.repair with
  | true => exact get?_repair c s name
  | false =>
    have hsame (models : SortedMap UInt64 Instance) : models.mapValues (fun _ i => i) = models :=
      SortedMap.ext_get? fun id => by simp [SortedMap.get?_mapValues]
    simp [hsame]

theorem instance?_run (c : Checker) (s : Snapshot) (name : String) (id : UInt64) :
    (c.run s).1.instance? name id = (s.instance? name id).map (c.shown name) := by
  rw [Snapshot.instance?, Snapshot.instance?, Snapshot.collection?, Snapshot.collection?, get?_run]
  cases s.collections.get? name with
  | none => rfl
  | some models => exact SortedMap.get?_mapValues ..

/-- The document of a regular snapshot that passes a check passes the check. -/
theorem checkDocument_toJson (hkeeps : c.config.KeepsIds) (hregular : s.IsRegular)
    (hclean : (c.run s).2 = []) : c.checkDocument (c.run s).1.toJson = .ok (c.run s).1 := by
  simp [checkDocument, Snapshot.parse_toJson (isRegular_run hkeeps hregular), run_run, hclean]

end Checker

end MeetingLedger.Consistency
