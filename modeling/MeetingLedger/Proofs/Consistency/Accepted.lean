import MeetingLedger.Proofs.Consistency.Clean
import MeetingLedger.Proofs.Consistency.Integrity
import MeetingLedger.Proofs.Consistency.Repair
import MeetingLedger.Proofs.Dataset.Ancestry
import MeetingLedger.Schema.Standard

/-!
# Models of an accepted dataset

What it says of each model of a whole dataset that a check finds nothing. Required fields hold
values of their types, and under the standard registry every file says whether it is public and
records what follows from the record of its directory.
-/

namespace MeetingLedger.Consistency

open Schema

namespace Checker

variable {c : Checker} {s : Snapshot} {origin : Fqid} {i : Instance}

theorem modelFindings_of_accepted (hclean : c.findings s = [])
    (hi : s.get? origin = some i) {collection : Collection}
    (hcollection : c.registry.collections.get? origin.collection = some collection) :
    c.modelFindings s collection origin i = [] := by
  obtain ⟨found, hfound, hmodel⟩ := exists_collection_of_clean hclean hi
  obtain rfl : found = collection := Option.some.inj (hfound.symm.trans hcollection)
  exact hmodel

theorem exists_value_of_accepted (hmode : c.config.mode = .all) (hclean : c.findings s = [])
    {f : Field} (hf : Declares c.registry s origin i f) (hrequired : f.required = true) :
    ∃ v, i.get? f.name = some v ∧ f.type.accepts v = true := by
  obtain ⟨collection, hcollection, hmem⟩ := hf.field
  have hexempt (name : String) : c.isExempt name f.name = false := by
    simp [isExempt, hmode, Mode.isMeeting]
  obtain ⟨hpresent, -, hfields, -⟩ := modelFindings_eq_nil_iff.1
    (modelFindings_of_accepted hclean hf.model hcollection)
  cases hget : i.get? f.name with
  | none =>
    have hmissing := missingFields_eq_nil_iff.1 hpresent f hmem
      (by simp [Field.mustBePresent, hrequired]) (by simp [SortedMap.contains, hget])
    rw [hexempt] at hmissing
    cases hmissing
  | some v =>
    obtain ⟨hempty, hvalue⟩ := fieldProblems_eq_nil_iff.1 (hfields f hmem v hget)
    cases hnull : v.isNull with
    | true =>
      obtain rfl := eq_null_of_isNull hnull
      have hfree := hempty rfl hrequired
      rw [hexempt] at hfree
      cases hfree
    | false => exact ⟨v, rfl, FieldType.check_eq_ok_iff.1 (hvalue hnull).1⟩

theorem contentProblems_of_accepted (hclean : c.findings s = [])
    (hi : s.get? origin = some i) {collection : Collection}
    (hcollection : c.registry.collections.get? origin.collection = some collection) :
    contentProblems s collection.name i = [] :=
  (modelFindings_eq_nil_iff.1 (modelFindings_of_accepted hclean hi hcollection)).2.2.2

/-- The records of all files of a dataset that is accepted agree with each other. -/
theorem recordsAgree_of_accepted (hregistry : c.registry = .standard)
    (hmode : c.config.mode = .all) (hclean : c.findings s = []) : Visibility.RecordsAgree s := by
  intro id file hfile
  have hcollection : c.registry.collections.get? "meeting_mediafile" =
      some Standard.meetingMediafile := by
    rw [hregistry]
    rfl
  let mark : Field := Standard.meetingMediafile.fields[1]
  have hmark : Declares c.registry s ⟨"meeting_mediafile", id⟩ file mark :=
    ⟨hfile, _, hcollection, List.getElem_mem _⟩
  constructor
  · obtain ⟨v, hv, haccepts⟩ := exists_value_of_accepted hmode hclean hmark rfl
    have hboolean : ScalarType.boolean.accepts v = true := haccepts
    rw [Instance.boolAt?, show file.get? "is_public" = some v from hv, Option.bind_some]
    cases v <;> first | rfl | cases hboolean
  · exact List.map_eq_nil_iff.1 (contentProblems_of_accepted hclean hmark.model hcollection)

end Checker

end MeetingLedger.Consistency
