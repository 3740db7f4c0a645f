import MeetingLedger.Proofs.Consistency.Clean
import MeetingLedger.Proofs.Consistency.Stability
import MeetingLedger.Proofs.Schema.Mirror
import MeetingLedger.Proofs.Schema.Values

/-!
# What a check says of defaults

A default has to be a valid value before a registry is accepted, and it is checked like any other
value once a repair has filled it in. Both look at the type and at the constraints. But only the check
takes the empty text and the empty list for empty, so that it complains of an empty default of a
required field, and of no other default of a plain value.
-/

namespace MeetingLedger

namespace Schema

/-- The default of a field, if there is one, is a valid value. -/
def Field.HasValidDefault (f : Field) : Prop := ∀ v, f.default = some v → f.validate v = .ok ()

theorem Field.hasValidDefault_of_ofDraft {collection name : String} {d : Draft} {f : Field}
    (h : ofDraft collection name d = .ok f) : f.HasValidDefault := by
  rw [ofDraft] at h
  cases htypeName : d.typeName with
  | none => simp [htypeName, bind, Except.bind] at h
  | some typeName =>
    rw [htypeName] at h
    cases htype : FieldType.declare typeName d.target? with
    | error problem => cases problem <;> simp [htype, bind, Except.bind] at h
    | ok type =>
      simp only [htype, ok_bind] at h
      intro v hv
      cases hdefault : d.default with
      | none =>
        simp only [hdefault] at h
        cases h
        cases hv
      | some w =>
        simp only [hdefault] at h
        split at h
        · rename_i hvalid
          cases h
          obtain rfl := Option.some.inj hv
          exact hvalid
        · cases h

theorem Field.hasValidDefault_of_ofYaml {collection name : String} {declaration : Yaml} {f : Field}
    (h : ofYaml collection name declaration = .ok f) : f.HasValidDefault := by
  cases declaration with
  | mapping options =>
    obtain ⟨d, -, h⟩ := bind_eq_ok_iff.1 h
    exact hasValidDefault_of_ofDraft h
  | _ => cases h

theorem Collection.hasValidDefault_of_ofYaml {name : String} {declarations : Yaml} {c : Collection}
    (h : ofYaml name declarations = .ok c) : ∀ f ∈ c.fields, f.HasValidDefault := by
  cases declarations with
  | mapping entries =>
    obtain ⟨fields, hread, h⟩ := bind_eq_ok_iff.1 h
    have heach := forall_of_mapM (P := Field.HasValidDefault) (fun entry f hf => ?_) hread
    · split at h
      · cases h
        exact heach
      · cases h
    · split at hf
      · cases hf
      · exact Field.hasValidDefault_of_ofYaml hf
  | _ => cases h

theorem Collection.hasValidDefault_of_ofEntry {entry : Yaml × Yaml} {c : Collection}
    (h : ofEntry entry = .ok (some c)) : ∀ f ∈ c.fields, f.HasValidDefault := by
  rw [ofEntry] at h
  split at h
  · cases h
  · split at h
    · cases h
    · split at h
      · cases h
      · obtain ⟨c', hc, heq⟩ := map_eq_ok_iff.1 h
        cases heq
        exact hasValidDefault_of_ofYaml hc

/-- In a registry read from a text, every default is a valid value of its field. -/
theorem Registry.hasValidDefault_of_ofText {text : String} {r : Registry} (h : ofText text = .ok r)
    {name : String} {c : Collection} (hc : r.collections.get? name = some c) {f : Field}
    (hf : f ∈ c.fields) : f.HasValidDefault := by
  obtain ⟨entries, collections, hread, hall⟩ := exists_entries_of_ofText h
  have hmem : some c ∈ collections := by
    simpa using (mem_of_ofCollections hall hc).1
  have heach := forall_of_mapM
    (P := fun o => ∀ c, o = some c → ∀ f ∈ c.fields, f.HasValidDefault)
    (fun entry o ho c hc => Collection.hasValidDefault_of_ofEntry (hc ▸ ho)) hread
  exact heach (some c) hmem c rfl f hf

end Schema

namespace Consistency

open Schema

namespace Checker

variable {c : Checker} {s : Snapshot} {origin : Fqid} {i : Instance} {f : Field} {v : Json}

/-- The first declaration of a name that has a default. -/
def withDefault? (collection : Collection) (name : String) : Option Field :=
  collection.fields.find? fun f => f.name == name && f.default.isSome

theorem defaultOf?_of_withDefault? {collection : Collection} {name : String}
    (h : withDefault? collection name = some f) : defaultOf? collection name = f.default := by
  obtain ⟨hf, before, after, hfields, hbefore⟩ := List.find?_eq_some_iff_append.1 h
  simp only [Bool.and_eq_true, beq_iff_eq, Option.isSome_iff_exists] at hf
  obtain ⟨hname, v, hv⟩ := hf
  rw [hv, defaultOf?, List.findSome?_eq_some_iff]
  refine ⟨before, f, after, hfields, by simp [hname, hv], fun g hg => ?_⟩
  by_cases hg' : g.name = name
  · simpa [hg'] using hbefore g hg
  · simp [hg']

/-- A repair gives a model of a collection the default of a field, which is absent or removed first.
Of several declarations of one name, the first default counts. -/
structure FillsIn (c : Checker) (name : String) (i : Instance) (f : Field) (v : Json) : Prop where
  declared : ∃ collection, c.registry.collections.get? name = some collection ∧
    withDefault? collection f.name = some f
  default : f.default = some v
  absent : f.name ∈ (c.config.fieldsToRemove.get? name).getD [] ∨ i.get? f.name = none

theorem exists_fillsIn {name field : String} {p : Field → Bool}
    (h : (c.registry.collections.get? name).any
      (fun collection => (withDefault? collection field).any p) = true)
    (habsent : i.get? field = none) : ∃ f v, p f = true ∧ c.FillsIn name i f v := by
  obtain ⟨collection, hcollection, hany⟩ := (Option.any_eq_true ..).1 h
  obtain ⟨f, hfirst, hf⟩ := (Option.any_eq_true ..).1 hany
  have hfound := List.find?_some hfirst
  simp only [Bool.and_eq_true, beq_iff_eq, Option.isSome_iff_exists] at hfound
  obtain ⟨rfl, v, hv⟩ := hfound
  exact ⟨f, v, hf, ⟨collection, hcollection, hfirst⟩, hv, .inr habsent⟩

theorem FillsIn.get?_repaired {name : String} (h : c.FillsIn name i f v) :
    (c.repaired name i).get? f.name = some v := by
  obtain ⟨collection, hcollection, hfirst⟩ := h.declared
  rw [repaired, hcollection]
  simp only [get?_repairInstance, defaultOf?_of_withDefault? hfirst, h.default]
  rcases h.absent with hremove | habsent
  · simp [hremove]
  · simp [habsent]

theorem FillsIn.validate {text name : String} (hr : Registry.ofText text = .ok c.registry)
    (h : c.FillsIn name i f v) : f.validate v = .ok () := by
  obtain ⟨collection, hcollection, hfirst⟩ := h.declared
  exact Registry.hasValidDefault_of_ofText hr hcollection (List.mem_of_find?_eq_some hfirst) v
    h.default

theorem fieldProblems_of_validate (hplain : f.type.isRelation = false)
    (hvalid : f.validate v = .ok ()) : c.fieldProblems s origin i f v =
      if isEmptyValue v && f.required && !c.isExempt origin.collection f.name then [.requiredEmpty]
      else [] := by
  rw [fieldProblems]
  cases hnull : v.isNull with
  | true => simp
  | false =>
    obtain ⟨htype, hconstraints⟩ := (Field.validate_eq_ok_iff.1 hvalid).2 hnull
    simp [htype, hconstraints, hplain]

/-- Of the default of a plain field that a repair has filled in, a check says nothing, unless the
default is empty and the field is required and not exempt. Then it says so, and nothing else. -/
theorem fieldProblems_of_default {text : String} (hr : Registry.ofText text = .ok c.registry)
    (hrepair : c.config.repair = true) (hi : s.get? origin = some i)
    (hplain : f.type.isRelation = false) (hfills : c.FillsIn origin.collection i f v) :
    ∃ repaired, (c.run s).1.get? origin = some repaired ∧ repaired.get? f.name = some v ∧
      c.fieldProblems (c.run s).1 origin repaired f v =
        if isEmptyValue v && f.required && !c.isExempt origin.collection f.name then
          [.requiredEmpty]
        else [] := by
  have hrun : (c.run s).1 = c.repair s := by
    rw [run, hrepair, if_pos rfl]
  refine ⟨c.repaired origin.collection i, ?_, hfills.get?_repaired,
    fieldProblems_of_validate hplain (hfills.validate hr)⟩
  rw [hrun, get?_repair_model, hi, Option.map_some]

/-- Notes whose title and text are filled in, the text with nothing. -/
def notesText : String :=
  "note:\n  id: {type: number}\n  title: {type: string, required: true, default: New}\n" ++
  "  text:\n    type: string\n    required: true\n    default: \"\"\n"

/-- A check of notes that fills in defaults. -/
def noteCheck (r : Registry) : Checker := ⟨r, { mode := .all, repair := true }, 4⟩

def oneNote : Snapshot := (Snapshot.empty 4).insert "note" 1 ∅

def bareNote : Instance := (∅ : Instance).insert "id" (.ofUInt64 1)

theorem exists_notes : ∃ r title text v w, Registry.ofText notesText = .ok r ∧
    title.type = .scalar .string ∧ isEmptyValue v = false ∧
    (noteCheck r).FillsIn "note" bareNote title v ∧
    text.type = .scalar .string ∧ text.required = true ∧ isEmptyValue w = true ∧
    (noteCheck r).FillsIn "note" bareNote text w := by
  have hall : (Registry.ofText notesText).toOption.any (fun r =>
      (r.collections.get? "note").any fun notes =>
        ((withDefault? notes "title").any fun f =>
          f.type == .scalar .string && !f.default.any isEmptyValue) &&
        (withDefault? notes "text").any fun f =>
          f.type == .scalar .string && f.required && f.default.any isEmptyValue) = true := by
    rw [Registry.ofText, Yaml.parse?, toList_of_eq_ofList (s := notesText)
      (append_eq_ofList rfl rfl)]
    decide +kernel
  obtain ⟨r, hr, hdefaults⟩ := exists_eq_ok_of_any hall
  obtain ⟨notes, hnotes, hboth⟩ := (Option.any_eq_true ..).1 hdefaults
  obtain ⟨htitle, htext⟩ := Bool.and_eq_true_iff.1 hboth
  obtain ⟨title, v, htitle, hv⟩ := exists_fillsIn (c := noteCheck r) (i := bareNote)
    ((Option.any_eq_true ..).2 ⟨notes, hnotes, htitle⟩) rfl
  obtain ⟨text, w, htext, hw⟩ := exists_fillsIn (c := noteCheck r) (i := bareNote)
    ((Option.any_eq_true ..).2 ⟨notes, hnotes, htext⟩) rfl
  simp only [hv.default, hw.default, Option.any_some, Bool.and_eq_true, beq_iff_eq,
    Bool.not_eq_true'] at htitle htext
  exact ⟨r, title, text, v, w, hr, htitle.1, htitle.2, hv, htext.1.1, htext.1.2, htext.2, hw⟩

theorem fieldProblems_of_noteTitle : ∃ r f v repaired, Registry.ofText notesText = .ok r ∧
    (noteCheck r).FillsIn "note" bareNote f v ∧
    ((noteCheck r).run oneNote).1.get? ⟨"note", 1⟩ = some repaired ∧
    (noteCheck r).fieldProblems ((noteCheck r).run oneNote).1 ⟨"note", 1⟩ repaired f v = [] := by
  obtain ⟨r, f, -, v, -, hr, htype, hfull, hfills, -⟩ := exists_notes
  have hnote : oneNote.get? ⟨"note", 1⟩ = some bareNote := rfl
  obtain ⟨repaired, hrepaired, -, hproblems⟩ := fieldProblems_of_default (c := noteCheck r) hr rfl
    hnote (by rw [htype]; rfl) hfills
  rw [hfull, Bool.false_and, Bool.false_and, if_neg Bool.false_ne_true] at hproblems
  exact ⟨r, f, v, repaired, hr, hfills, hrepaired, hproblems⟩

/-- The registry of notes is accepted, and a check complains of the text that it fills in. -/
theorem noteText_is_accepted_and_reported : ∃ r f v, Registry.ofText notesText = .ok r ∧
    f.type = .scalar .string ∧ oneNote.get? ⟨"note", 1⟩ = some bareNote ∧
    (noteCheck r).FillsIn "note" bareNote f v ∧
    (noteCheck r).fieldProblems ((noteCheck r).run oneNote).1 ⟨"note", 1⟩
      ((noteCheck r).repaired "note" bareNote) f v = [.requiredEmpty] := by
  obtain ⟨r, -, f, -, v, hr, -, -, -, htype, hrequired, hempty, hfills⟩ := exists_notes
  refine ⟨r, f, v, hr, htype, rfl, hfills, ?_⟩
  rw [fieldProblems_of_validate (by rw [htype]; rfl) (hfills.validate hr), hempty, hrequired]
  rfl

end Checker

end Consistency

end MeetingLedger
