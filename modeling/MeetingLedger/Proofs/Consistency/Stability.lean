import MeetingLedger.Proofs.Consistency.Clean
import MeetingLedger.Proofs.Consistency.Repair
import MeetingLedger.Schema.Builder

/-!
# What a repair leaves alone

A repair changes nothing exactly if no model holds a field that is to be removed, other than its
default, or lacks a field with a default. A repaired snapshot is like that, and so is a whole dataset
that passes a check, as long as nothing is to be removed.
-/

namespace MeetingLedger.Consistency

open Schema

theorem repairInstance_eq_self_iff {collection : Collection} {remove : List String} {i : Instance} :
    repairInstance collection remove i = i ↔
      (∀ name ∈ remove, i.get? name = defaultOf? collection name) ∧
        ∀ name, i.contains name = false → defaultOf? collection name = none := by
  have hname (name : String) : (repairInstance collection remove i).get? name = i.get? name ↔
      (name ∈ remove → i.get? name = defaultOf? collection name) ∧
        (i.contains name = false → defaultOf? collection name = none) := by
    rw [get?_repairInstance, SortedMap.contains]
    by_cases hremove : name ∈ remove <;> cases hget : i.get? name <;>
      simp [hremove, eq_comm (a := defaultOf? collection name)]
  constructor
  · intro h
    have hall := fun name => (hname name).1 (by rw [h])
    exact ⟨fun name => (hall name).1, fun name => (hall name).2⟩
  · rintro ⟨hremove, hdefault⟩
    exact SortedMap.ext_get? fun name => (hname name).2 ⟨hremove name, hdefault name⟩

namespace Checker

variable {c : Checker} {s : Snapshot}

theorem get?_repair_model (c : Checker) (s : Snapshot) (model : Fqid) :
    (c.repair s).get? model = (s.get? model).map (c.repaired model.collection) := by
  rw [Snapshot.get?, Snapshot.instance?, Snapshot.collection?, get?_repair, Snapshot.get?,
    Snapshot.instance?, Snapshot.collection?]
  cases s.collections.get? model.collection with
  | none => rfl
  | some models => exact SortedMap.get?_mapValues ..

/-- A repair leaves a snapshot alone if it does so with every model. -/
theorem repair_eq_self_iff : c.repair s = s ↔
    ∀ model i, s.get? model = some i → c.repaired model.collection i = i := by
  constructor
  · intro h model i hi
    have hmodel := get?_repair_model c s model
    rw [h, hi, Option.map_some] at hmodel
    exact (Option.some.inj hmodel).symm
  · intro h
    have hcollections : (c.repair s).collections = s.collections := by
      refine SortedMap.ext_get? fun name => ?_
      rw [get?_repair]
      cases hmodels : s.collections.get? name with
      | none => rfl
      | some models =>
        refine congrArg some (SortedMap.ext_get? fun id => ?_)
        rw [SortedMap.get?_mapValues]
        cases hi : models.get? id with
        | none => rfl
        | some i =>
          refine congrArg some (h ⟨name, id⟩ i ?_)
          rw [Snapshot.get?, Snapshot.instance?, Snapshot.collection?, hmodels]
          exact hi
    exact congrArg (Snapshot.mk s.migrationIndex) hcollections

/-- A whole dataset that passes a check lacks no field with a default. -/
theorem defaultOf?_of_clean (hmode : c.config.mode = .all) {collection : Collection} {i : Instance}
    (hpresent : c.missingFields collection i = []) {name : String} (hname : i.contains name = false) :
    defaultOf? collection name = none := by
  rw [defaultOf?, List.findSome?_eq_none_iff]
  intro f hf
  split
  · rename_i heq
    subst heq
    rw [Option.eq_none_iff_forall_not_mem]
    intro v hv
    have hexempt := missingFields_eq_nil_iff.1 hpresent f hf
      (by simp [Field.mustBePresent, Option.mem_def.1 hv]) hname
    simp [isExempt, hmode, Mode.isMeeting] at hexempt
  · rfl

def fillingIn (c : Checker) : Checker :=
  { c with config := { c.config with repair := true, fieldsToRemove := ∅ } }

theorem repair_fillingIn_of_clean (hmode : c.config.mode = .all) (hclean : c.findings s = []) :
    c.fillingIn.repair s = s := by
  rw [repair_eq_self_iff]
  intro model i hi
  obtain ⟨collection, hcollection, hmodel⟩ := exists_collection_of_clean hclean hi
  have hpresent := (modelFindings_eq_nil_iff.1 hmodel).1
  have hrepaired : c.fillingIn.repaired model.collection i = repairInstance collection [] i := by
    rw [repaired, show c.fillingIn.registry = c.registry from rfl, hcollection]
    rfl
  rw [hrepaired, repairInstance_eq_self_iff]
  exact ⟨List.forall_mem_nil _, fun name => defaultOf?_of_clean hmode hpresent⟩

/-- A check of what a check has left finds the same and leaves the same, and a repair that removes
nothing from a whole dataset that passes without it changes nothing and passes. -/
theorem run_stable (c : Checker) (s : Snapshot) :
    c.run (c.run s).1 = c.run s ∧
      (c.config.mode = .all → c.config.repair = false → (c.run s).2 = [] →
        c.fillingIn.run s = (s, [])) := by
  refine ⟨run_run c s, fun hmode hrepair hclean => ?_⟩
  have hfound : c.findings s = [] := by
    simpa [run, hrepair] using hclean
  have hsame := repair_fillingIn_of_clean hmode hfound
  have hrun : c.fillingIn.run s = (c.fillingIn.repair s, c.findings (c.fillingIn.repair s)) := rfl
  rw [hrun, hsame, hfound]

/-- Topics with a weight that is filled in. -/
def weighted : Registry := ⟨SortedMap.ofList [("topic", .declare "topic" [
  (Field.plain "id" .number).needed, (Field.plain "weight" .number).withDefault (.ofNat 10000)])]⟩

def oneWeighted : Snapshot :=
  (Snapshot.empty 4).insert "topic" 1 ((∅ : Instance).insert "weight" (.ofUInt64 5))

theorem run_stable_of_oneWeighted :
    let c : Checker := ⟨weighted, { mode := .all }, 4⟩
    (c.run oneWeighted).2 = [] ∧ c.fillingIn.run oneWeighted = (oneWeighted, []) := by
  intro c
  have hclean : (c.run oneWeighted).2 = [] := List.isEmpty_iff.1 (by decide +kernel)
  exact ⟨hclean, (run_stable c oneWeighted).2 rfl rfl hclean⟩

end Checker

end MeetingLedger.Consistency
