import MeetingLedger.Proofs.Container.Except
import MeetingLedger.Proofs.Container.Lookup
import MeetingLedger.Schema.Declaration

/-!
# Relations of an accepted registry

What it means for a registry to be accepted: every collection goes by its own name, and the field at
the other end of every relation points back. A lookup by collection alone finds the way back as long
as no field points to two fields of one collection.
-/

namespace MeetingLedger

section Texts

variable {s t : String} {cs ds : List Char}

/-- A text that is written out has its characters without being decoded. -/
theorem toList_of_eq_ofList (h : s = String.ofList cs) : s.toList = cs := by
  rw [h, String.toList_ofList]

theorem append_eq_ofList (hs : s = String.ofList cs) (ht : t = String.ofList ds) :
    s ++ t = String.ofList (cs ++ ds) := by
  rw [hs, ht, String.ofList_append]

end Texts

namespace Schema

namespace Collection

theorem mem_of_field? {c : Collection} {name : String} {f : Field} (h : c.field? name = some f) :
    f ∈ c.fields ∧ f.name = name := by
  constructor
  · exact List.mem_reverse.1 (List.mem_of_find?_eq_some h)
  · simpa using List.find?_some h

end Collection

namespace FieldType

variable {type : FieldType} {target : Target}

theorem targetFor?_eq_some {name : String} (h : type.targetFor? name = some target) :
    target ∈ type.targets ∧ target.collection = name :=
  ⟨List.mem_of_find?_eq_some h, by simpa using List.find?_some h⟩

theorem targetFor?_of_unique (htarget : target ∈ type.targets)
    (hunique : ∀ t ∈ type.targets, t.collection = target.collection → t = target) :
    type.targetFor? target.collection = some target := by
  obtain ⟨t, ht⟩ : ∃ t, type.targetFor? target.collection = some t := by
    rw [← Option.isSome_iff_exists, targetFor?, List.find?_isSome]
    exact ⟨target, htarget, by simp⟩
  obtain ⟨hmem, hcollection⟩ := targetFor?_eq_some ht
  rw [ht, hunique t hmem hcollection]

end FieldType

namespace Registry

/-- The relations of a registry are mirrored. -/
structure IsMirrored (r : Registry) : Prop where
  name : ∀ name c, r.collections.get? name = some c → c.name = name
  mirror : ∀ name c, r.collections.get? name = some c → ∀ f ∈ c.fields, ∀ target ∈ f.type.targets,
    r.mirrorProblem? c f target = none

theorem mem_of_ofCollections {collections : List Collection} {r : Registry}
    (h : ofCollections collections = .ok r) {name : String} {c : Collection}
    (hc : r.collections.get? name = some c) : c ∈ collections ∧ c.name = name := by
  rw [ofCollections] at h
  split at h
  · cases h
    obtain ⟨d, hd, heq⟩ := List.mem_map.1 (SortedMap.mem_of_get?_ofList hc)
    cases heq
    exact ⟨hd, rfl⟩
  · cases h

theorem isMirrored_of_ofCollections {collections : List Collection} {r : Registry}
    (h : ofCollections collections = .ok r) : r.IsMirrored := by
  refine ⟨fun name c hc => (mem_of_ofCollections h hc).2, fun name c hget f hf target htarget => ?_⟩
  rw [ofCollections] at h
  split at h
  · rename_i hnone
    cases h
    have hvalue : c ∈ (SortedMap.ofList (collections.map fun c => (c.name, c))).values :=
      List.mem_map.2 ⟨(name, c), SortedMap.mem_entries_iff.2 hget, rfl⟩
    have hfields := List.findSome?_eq_none_iff.1 hnone c hvalue
    have htargets := List.findSome?_eq_none_iff.1 hfields f hf
    simpa using List.findSome?_eq_none_iff.1 htargets target htarget
  · cases h

theorem exists_entries_of_ofText {text : String} {r : Registry} (h : ofText text = .ok r) :
    ∃ entries collections, List.mapM Collection.ofEntry entries = .ok collections ∧
      ofCollections (collections.filterMap id) = .ok r := by
  rw [ofText] at h
  split at h
  · cases h
  · rename_i document _
    cases document with
    | mapping entries =>
      obtain ⟨collections, hread, hall⟩ := bind_eq_ok_iff.1 h
      exact ⟨entries, collections, hread, hall⟩
    | _ => cases h

/-- A registry read from a text is mirrored. -/
theorem isMirrored_of_ofText {text : String} {r : Registry} (h : ofText text = .ok r) :
    r.IsMirrored := by
  obtain ⟨entries, collections, -, hall⟩ := exists_entries_of_ofText h
  exact isMirrored_of_ofCollections hall

theorem mirrorProblem?_eq_none_iff {r : Registry} {c : Collection} {f : Field} {target : Target} :
    r.mirrorProblem? c f target = none ↔
      ∃ other reverse, r.collections.get? target.collection = some other ∧
        other.field? target.field = some reverse ∧ reverse.type.isRelation = true ∧
        ⟨c.name, f.name⟩ ∈ reverse.type.targets ∧
        ∀ name ∈ f.equalFields, c.hasField name = true ∧ other.hasField name = true := by
  rw [mirrorProblem?]
  cases hother : r.collections.get? target.collection with
  | none => simp
  | some other =>
    cases hreverse : other.field? target.field with
    | none => simp [hreverse]
    | some reverse =>
      cases hrelation : reverse.type.isRelation with
      | false => simp [hreverse, hrelation]
      | true =>
        by_cases hback : ⟨c.name, f.name⟩ ∈ reverse.type.targets
        · simp [hreverse, hrelation, hback]
        · simp [hreverse, hrelation, hback]

section Mirrored

variable {r : Registry}

/-- The field at the other end of a relation is declared and points back. -/
theorem IsMirrored.exists_reverse (hr : r.IsMirrored) {name : String}
    {c : Collection} (hc : r.collections.get? name = some c) {f : Field} (hf : f ∈ c.fields)
    {target : Target} (htarget : target ∈ f.type.targets) :
    ∃ other reverse, r.collections.get? target.collection = some other ∧
      other.field? target.field = some reverse ∧ ⟨name, f.name⟩ ∈ reverse.type.targets := by
  obtain ⟨other, reverse, hother, hreverse, -, hback, -⟩ :=
    mirrorProblem?_eq_none_iff.1 (hr.mirror name c hc f hf target htarget)
  rw [hr.name name c hc] at hback
  exact ⟨other, reverse, hother, hreverse, hback⟩

/-- At the other end of every relation, the lookup by collection gives the field that it came from. -/
def LeadsBack (r : Registry) : Prop :=
  ∀ name c, r.collections.get? name = some c → ∀ f ∈ c.fields, ∀ target ∈ f.type.targets,
    ∀ reverse, r.field? target.collection target.field = some reverse →
      reverse.type.targetFor? name = some ⟨name, f.name⟩

/-- No field points to two fields of one collection. -/
def IsUnambiguous (r : Registry) : Prop :=
  ∀ collection name f, r.field? collection name = some f → ∀ t ∈ f.type.targets,
    ∀ t' ∈ f.type.targets, t.collection = t'.collection → t = t'

/-- Two targets in one collection are two relations that come back to the same field, where the lookup
has to choose one of them. -/
theorem IsMirrored.leadsBack_iff (hr : r.IsMirrored) : r.LeadsBack ↔ r.IsUnambiguous := by
  constructor
  · intro hback
    have hfound {collection name : String} {g : Field} (hg : r.field? collection name = some g)
        {t : Target} (ht : t ∈ g.type.targets) : g.type.targetFor? t.collection = some t := by
      obtain ⟨c, hc, hfield⟩ := Option.bind_eq_some_iff.1 hg
      obtain ⟨hmem, rfl⟩ := Collection.mem_of_field? hfield
      obtain ⟨other, reverse, hother, hreverse, hmirror⟩ := hr.exists_reverse hc hmem ht
      obtain ⟨hreverse, hname⟩ := Collection.mem_of_field? hreverse
      have hlookup := hback t.collection other hother reverse hreverse _ hmirror g hg
      rwa [hname] at hlookup
    intro collection name g hg t ht t' ht' hcollection
    have hlookup := hfound hg ht
    rw [hcollection, hfound hg ht'] at hlookup
    exact (Option.some.inj hlookup).symm
  · intro hunique name c hc f hf target htarget reverse hreverse
    obtain ⟨other, back, hother, hfield, hmirror⟩ := hr.exists_reverse hc hf htarget
    obtain rfl : back = reverse := by
      rw [field?, hother] at hreverse
      exact Option.some.inj (hfield.symm.trans hreverse)
    apply FieldType.targetFor?_of_unique hmirror
    intro t ht hcollection
    exact hunique _ _ back hreverse t ht _ hmirror hcollection

end Mirrored

/-- In an accepted registry, the field at the other end of a relation exists, is a relation itself and
points back, and both ends have the fields in which they are to be equal. The way back is found by
collection for every relation if and only if no field points to two fields of one collection. -/
theorem reverse_of_ofText {text : String} {r : Registry} (h : ofText text = .ok r) :
    (∀ name c, r.collections.get? name = some c → ∀ f ∈ c.fields, ∀ target ∈ f.type.targets,
      ∃ other reverse, r.collections.get? target.collection = some other ∧
        other.field? target.field = some reverse ∧ reverse.type.isRelation = true ∧
        ⟨name, f.name⟩ ∈ reverse.type.targets ∧
        ∀ equal ∈ f.equalFields, c.hasField equal = true ∧ other.hasField equal = true) ∧
    (r.LeadsBack ↔ r.IsUnambiguous) := by
  have hr := isMirrored_of_ofText h
  refine ⟨fun name c hc f hf target htarget => ?_, hr.leadsBack_iff⟩
  obtain rfl := hr.name name c hc
  exact mirrorProblem?_eq_none_iff.1 (hr.mirror c.name c hc f hf target htarget)

def facingText : String :=
  "seat:\n  id: {type: number}\n  facing_id: {type: relation, to: seat/facing_id}\n"

theorem leadsBack_of_facingText : ∃ r, ofText facingText = .ok r ∧ r.LeadsBack := by
  have hall : (ofText facingText).toOption.any (fun r => decide (∀ e ∈ r.collections.entries,
      ∀ f ∈ e.2.fields, ∀ t ∈ f.type.targets, ∀ t' ∈ f.type.targets,
        t.collection = t'.collection → t = t')) = true := by
    rw [ofText, Yaml.parse?, toList_of_eq_ofList (s := facingText) rfl]
    decide +kernel
  obtain ⟨r, hr, hall⟩ := exists_eq_ok_of_any hall
  rw [decide_eq_true_eq] at hall
  refine ⟨r, hr, (reverse_of_ofText hr).2.2 fun collection name f hf t ht t' ht' heq => ?_⟩
  obtain ⟨c, hc, hfield⟩ := Option.bind_eq_some_iff.1 hf
  exact hall (collection, c) (SortedMap.mem_entries_iff.2 hc) f
    (Collection.mem_of_field? hfield).1 t ht t' ht' heq

/-- Seats in a row, where a seat names one of its neighbors. -/
def rowsText : String :=
  "seat:\n  id: {type: number}\n  left_id: {type: relation, to: seat/near_id}\n" ++
  "  right_id: {type: relation, to: seat/near_id}\n" ++
  "  near_id: {type: generic-relation, to: [seat/left_id, seat/right_id]}\n"

/-- On the way back from a neighbor on the right, the lookup takes the field for the left. -/
theorem right_of_rowsText_leads_to_left : ∃ r f back, ofText rowsText = .ok r ∧
    r.field? "seat" "right_id" = some f ∧ f.type.targets = [⟨"seat", "near_id"⟩] ∧
    r.field? "seat" "near_id" = some back ∧
    back.type.targetFor? "seat" = some ⟨"seat", "left_id"⟩ ∧ ¬ r.LeadsBack := by
  have hall : (ofText rowsText).toOption.any (fun r =>
      (r.field? "seat" "right_id").any (fun f =>
        decide (f.type.targets = [⟨"seat", "near_id"⟩])) &&
      (r.field? "seat" "near_id").any fun back =>
        decide (back.type.targetFor? "seat" = some ⟨"seat", "left_id"⟩)) = true := by
    rw [ofText, Yaml.parse?, toList_of_eq_ofList (s := rowsText)
      (append_eq_ofList (append_eq_ofList rfl rfl) rfl)]
    decide +kernel
  obtain ⟨r, hr, hall⟩ := exists_eq_ok_of_any hall
  simp only [Bool.and_eq_true, Option.any_eq_true, decide_eq_true_eq] at hall
  obtain ⟨⟨f, hf, htargets⟩, back, hback, hlookup⟩ := hall
  refine ⟨r, f, back, hr, hf, htargets, hback, hlookup, fun hleads => ?_⟩
  obtain ⟨c, hc, hfield⟩ := Option.bind_eq_some_iff.1 hf
  obtain ⟨hmem, hname⟩ := Collection.mem_of_field? hfield
  have hfound := hleads "seat" c hc f hmem ⟨"seat", "near_id"⟩ (by simp [htargets]) back hback
  rw [hlookup, hname] at hfound
  simp at hfound

end Registry

end Schema

end MeetingLedger
