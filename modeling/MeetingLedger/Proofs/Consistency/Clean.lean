import MeetingLedger.Consistency.Checker
import MeetingLedger.Proofs.Container.Lookup

/-!
# Checks without findings

What it says of a field, a model, a collection and a whole snapshot that a check finds nothing wrong
with them.
-/

namespace MeetingLedger.Consistency.Checker

open Schema

variable {c : Checker} {s : Snapshot} {origin : Fqid} {i : Instance}

theorem fieldProblems_eq_nil_iff {f : Field} {v : Json} :
    c.fieldProblems s origin i f v = [] ↔
      (isEmptyValue v = true → f.required = true → c.isExempt origin.collection f.name = true) ∧
      (v.isNull = false → f.type.check v = .ok () ∧ f.checkConstraints v = .ok () ∧
        (f.type.isRelation = true → c.isExempt origin.collection f.name = false →
          relationProblems c.registry c.config.mode s origin i f v = [])) := by
  rw [fieldProblems]
  cases hnull : v.isNull with
  | true => simp
  | false =>
    cases hcheck : f.type.check v with
    | error e => simp
    | ok u => cases hconstraints : f.checkConstraints v <;> simp [and_assoc]

theorem missingFields_eq_nil_iff {collection : Collection} :
    c.missingFields collection i = [] ↔ ∀ f ∈ collection.fields, f.mustBePresent = true →
      i.contains f.name = false → c.isExempt collection.name f.name = true := by
  simp [missingFields]

theorem modelFindings_eq_nil_iff {collection : Collection} :
    c.modelFindings s collection origin i = [] ↔
      c.missingFields collection i = [] ∧ unknownFields collection i = [] ∧
      (∀ f ∈ collection.fields, ∀ v, i.get? f.name = some v → c.fieldProblems s origin i f v = []) ∧
      contentProblems s collection.name i = [] := by
  have hlist {names : List String} {finding : Finding} :
      (if names.isEmpty then [] else [finding]) = [] ↔ names = [] := by
    cases names <;> simp
  simp only [modelFindings, List.append_eq_nil_iff, hlist, List.flatMap_eq_nil_iff,
    List.map_eq_nil_iff, and_assoc]
  refine and_congr_right' (and_congr_right' (and_congr_left' (forall₂_congr fun f _ => ?_)))
  cases i.get? f.name <;> simp

theorem collectionFindings_eq_nil_iff {name : String} {models : SortedMap UInt64 Instance} :
    c.collectionFindings s name models = [] ↔
      ∃ collection, c.registry.collections.get? name = some collection ∧
        (c.config.mode.isMeeting = true → c.registry.isMeetingScoped name = true) ∧
        ∀ id i, models.get? id = some i → c.modelFindings s collection ⟨name, id⟩ i = [] := by
  rw [collectionFindings]
  cases hcollection : c.registry.collections.get? name with
  | none => simp
  | some collection =>
    have hmodels : (models.entries.flatMap fun e => c.modelFindings s collection ⟨name, e.1⟩ e.2) = [] ↔
        ∀ id i, models.get? id = some i → c.modelFindings s collection ⟨name, id⟩ i = [] := by
      simp only [List.flatMap_eq_nil_iff, Prod.forall, SortedMap.mem_entries_iff]
    cases c.config.mode.isMeeting <;> cases c.registry.isMeetingScoped name <;> simp [hmodels]

theorem findings_eq_nil_iff :
    c.findings s = [] ↔ c.indexFindings s = [] ∧ ∀ name models,
      s.collections.get? name = some models → c.collectionFindings s name models = [] := by
  simp only [findings, List.append_eq_nil_iff, List.flatMap_eq_nil_iff, Prod.forall,
    SortedMap.mem_entries_iff]

/-- What is wrong with the collection at a place. -/
def findingsAt (c : Checker) (s : Snapshot) (place : Nat) : List Finding :=
  s.collections.entries[place]?.elim [] fun e => c.collectionFindings s e.1 e.2

/-- Nothing is wrong with a snapshot if nothing is with each of its collections. -/
theorem findings_eq_nil_of_places {n : Nat} (hindex : c.indexFindings s = [])
    (hlength : s.collections.entries.length = n) (hplaces : ∀ place < n, c.findingsAt s place = []) :
    c.findings s = [] := by
  rw [findings, hindex, List.nil_append, List.flatMap_eq_nil_iff]
  intro e he
  obtain ⟨place, hplace, rfl⟩ := List.mem_iff_getElem.1 he
  have hfound := hplaces place (hlength ▸ hplace)
  rwa [findingsAt, List.getElem?_eq_getElem hplace] at hfound

/-- Every model of a snapshot that passes a check belongs to a declared collection, and nothing is
wrong with it. -/
theorem exists_collection_of_clean (hclean : c.findings s = []) (hi : s.get? origin = some i) :
    ∃ collection, c.registry.collections.get? origin.collection = some collection ∧
      c.modelFindings s collection origin i = [] := by
  obtain ⟨models, hmodels, hi⟩ := Option.bind_eq_some_iff.1 hi
  obtain ⟨collection, hcollection, -, hmodel⟩ := collectionFindings_eq_nil_iff.1
    ((findings_eq_nil_iff.1 hclean).2 origin.collection models hmodels)
  exact ⟨collection, hcollection, hmodel origin.id i hi⟩

end MeetingLedger.Consistency.Checker
