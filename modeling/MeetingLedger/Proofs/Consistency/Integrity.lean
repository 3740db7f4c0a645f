import Mathlib.Data.List.Nodup
import MeetingLedger.Consistency.Checker
import MeetingLedger.Proofs.Consistency.Reference
import MeetingLedger.Proofs.Schema.Mirror
import MeetingLedger.Proofs.Schema.Values

/-!
# What a check without findings says of the relations

A check of a whole dataset finds nothing wrong with the relations exactly if the dataset has
referential integrity: what the values of relations name is there, relations are symmetric, and both
ends agree where they have to. The check itself only looks from one model at a time to the models
that it refers to.
-/

namespace MeetingLedger.Consistency

open Schema

/-- A model of a snapshot and a field that the registry declares for its collection. -/
structure Declares (r : Registry) (s : Snapshot) (origin : Fqid) (ours : Instance) (f : Field) :
    Prop where
  model : s.get? origin = some ours
  field : ∃ c, r.collections.get? origin.collection = some c ∧ f ∈ c.fields

/-- The items of the value that a model has in a field. -/
def heldItems (ours : Instance) (f : Field) : List Json :=
  (ours.get? f.name).elim [] FieldType.itemsOf

/-- An item stands for a model in a collection to which the field may point. -/
structure Names (f : Field) (item : Json) (model : Fqid) : Prop where
  allowed : f.type.Allows model.collection
  mentioned : FieldType.mentionsItem model item = true

def RefersTo (ours : Instance) (f : Field) (model : Fqid) : Prop :=
  ∃ item ∈ heldItems ours f, Names f item model

/-- The relations of a snapshot are sound. Nothing in this asks how the checker reads a value. -/
structure Integrity (r : Registry) (s : Snapshot) : Prop where
  /-- Every item names a model that is there, in a collection that the field allows. -/
  resolved : ∀ {origin ours f}, Declares r s origin ours f → f.type.isRelation = true →
    ∀ item ∈ heldItems ours f, ∃ model, Names f item model ∧ (s.get? model).isSome = true
  /-- Of two fields that name each other, one refers to a model exactly if the model refers back in
  the other. -/
  symmetric : ∀ {a b ours theirs f g}, Declares r s a ours f → Declares r s b theirs g →
    ⟨b.collection, g.name⟩ ∈ f.type.targets → ⟨a.collection, f.name⟩ ∈ g.type.targets →
    (RefersTo ours f b ↔ RefersTo theirs g a)
  /-- Both ends of a reference agree in the fields that its field names. -/
  agreeing : ∀ {a b ours theirs f}, Declares r s a ours f → RefersTo ours f b →
    s.get? b = some theirs → ∀ name ∈ f.equalFields, (ours.get? name == theirs.get? name) = true

/-- The values of relations that are there and not `null` are of the types of their fields. -/
def WellTyped (r : Registry) (s : Snapshot) : Prop :=
  ∀ ⦃origin ours f v⦄, Declares r s origin ours f → f.type.isRelation = true →
    ours.get? f.name = some v → v.isNull = false → f.type.check v = .ok ()

/-- No field that may point to several collections has two targets in one of them. -/
def TargetsDiffer (r : Registry) : Prop :=
  ∀ name c, r.collections.get? name = some c → ∀ f ∈ c.fields, f.type.isGeneric = true →
    (f.type.targets.map (·.collection)).Nodup

variable {r : Registry} {s : Snapshot}

instance : Decidable (TargetsDiffer r) :=
  decidable_of_iff (∀ e ∈ r.collections.entries, ∀ f ∈ e.2.fields, f.type.isGeneric = true →
    (f.type.targets.map (·.collection)).Nodup) ⟨fun h name c hc f hf hgeneric =>
      h (name, c) (SortedMap.mem_entries_iff.2 hc) f hf hgeneric, fun h e he =>
      h e.1 e.2 (SortedMap.mem_entries_iff.1 he)⟩

def wellTyped (r : Registry) (s : Snapshot) : Bool :=
  s.collections.entries.all fun e => e.2.entries.all fun i =>
    (r.collections.get? e.1).all fun c => c.fields.all fun f =>
      !f.type.isRelation || (i.2.get? f.name).all fun v => v.isNull || f.type.accepts v

theorem wellTyped_of_eq_true (h : wellTyped r s = true) : WellTyped r s := by
  intro origin ours f v hf hrelation hv hnull
  obtain ⟨c, hc, hmem⟩ := hf.field
  obtain ⟨models, hmodels, hours⟩ := Option.bind_eq_some_iff.1 hf.model
  have hcollection := List.all_eq_true.1 h _ (SortedMap.mem_entries_iff.2 hmodels)
  have hmodel := List.all_eq_true.1 hcollection _ (SortedMap.mem_entries_iff.2 hours)
  rw [hc, Option.all_some] at hmodel
  have hfield := List.all_eq_true.1 hmodel f hmem
  simpa [hrelation, hv, hnull, FieldType.check_eq_ok_iff] using hfield

theorem eq_null_of_isNull {v : Json} (h : v.isNull = true) : v = .null := by
  cases v <;> first | rfl | cases h

theorem WellTyped.value_cases (htyped : WellTyped r s) {origin : Fqid} {ours : Instance} {f : Field}
    (hf : Declares r s origin ours f) (hrelation : f.type.isRelation = true) :
    ours.get? f.name = none ∨ ours.get? f.name = some .null ∨
      ∃ v, ours.get? f.name = some v ∧ v.isNull = false ∧ f.type.accepts v = true := by
  cases hv : ours.get? f.name with
  | none => exact .inl rfl
  | some v =>
    cases hnull : v.isNull with
    | true =>
      obtain rfl := eq_null_of_isNull hnull
      exact .inr (.inl rfl)
    | false =>
      exact .inr (.inr ⟨v, rfl, hnull, FieldType.check_eq_ok_iff.1 (htyped hf hrelation hv hnull)⟩)

theorem isRelation_of_mem_targets {type : FieldType} {target : Target} (h : target ∈ type.targets) :
    type.isRelation = true := by
  cases type <;> first | rfl | cases h

theorem references_null (type : FieldType) : type.references .null = [] := by
  cases type <;> rfl

theorem refersTo_null (type : FieldType) (model : Fqid) : type.refersTo .null model = false := by
  cases type <;> rfl

theorem RefersTo.isRelation {ours : Instance} {f : Field} {model : Fqid}
    (h : RefersTo ours f model) : f.type.isRelation = true := by
  obtain ⟨item, -, ⟨⟨target, htarget, -⟩, -⟩⟩ := h
  exact isRelation_of_mem_targets htarget

/-- Targets of one field in one collection are the same. -/
theorem target_unique (hdiffer : TargetsDiffer r) {name : String} {c : Collection} {f : Field}
    (hc : r.collections.get? name = some c) (hf : f ∈ c.fields) {t t' : Target}
    (ht : t ∈ f.type.targets) (ht' : t' ∈ f.type.targets) (heq : t.collection = t'.collection) :
    t = t' := by
  cases hgeneric : f.type.isGeneric with
  | true => exact List.inj_on_of_nodup_map (hdiffer name c hc f hf hgeneric) ht ht' heq
  | false =>
    cases htype : f.type <;> simp_all [FieldType.targets, FieldType.isGeneric]

section Findings

variable {config : Config} {backend : UInt64} {origin : Fqid} {ours : Instance}

theorem relation_mem_fieldProblems_iff (hmode : config.mode = .all) {f : Field} {v : Json}
    {p : RelationProblem} :
    .relation p ∈ (Checker.mk r config backend).fieldProblems s origin ours f v ↔
      v.isNull = false ∧ f.type.check v = .ok () ∧ f.type.isRelation = true ∧
        p ∈ relationProblems r .all s origin ours f v := by
  have hexempt : (Checker.mk r config backend).isExempt origin.collection f.name = false := by
    simp [Checker.isExempt, hmode, Mode.isMeeting]
  cases hnull : v.isNull with
  | true => simp [Checker.fieldProblems, hnull]
  | false =>
    cases hcheck : f.type.check v with
    | error e => simp [Checker.fieldProblems, hnull, hcheck]
    | ok u =>
      cases hconstraints : f.checkConstraints v <;> cases hrelation : f.type.isRelation <;>
        simp [Checker.fieldProblems, hnull, hcheck, hexempt, hrelation, hconstraints, hmode]

theorem relation_mem_modelFindings_iff {c : Collection} {model : Fqid} {name : String}
    {p : RelationProblem} :
    .field origin name (.relation p) ∈ (Checker.mk r config backend).modelFindings s c model ours ↔
      model = origin ∧ ∃ f ∈ c.fields, f.name = name ∧ ∃ v, ours.get? f.name = some v ∧
        .relation p ∈ (Checker.mk r config backend).fieldProblems s model ours f v := by
  have hcontent : ∀ q ∈ Checker.contentProblems s c.name ours, q.2 ≠ .relation p := by
    intro q hq
    rw [Checker.contentProblems] at hq
    split at hq
    · obtain ⟨d, -, rfl⟩ := List.mem_map.1 hq
      simp
    · split at hq
      · obtain ⟨d, -, rfl⟩ := List.mem_map.1 hq
        simp
      · cases hq
  rw [Checker.modelFindings]
  simp only [List.mem_append, List.mem_flatMap]
  constructor
  · rintro (((h | h) | ⟨f, hf, h⟩) | h)
    · split at h <;> simp at h
    · split at h <;> simp at h
    · split at h
      · cases h
      · rename_i v hv
        obtain ⟨q, hq, heq⟩ := List.mem_map.1 h
        cases heq
        exact ⟨rfl, f, hf, rfl, v, hv, hq⟩
    · obtain ⟨q, hq, heq⟩ := List.mem_map.1 h
      exact absurd (Finding.field.inj heq).2.2 (hcontent q hq)
  · rintro ⟨rfl, f, hf, rfl, v, hv, hp⟩
    refine .inl (.inr ⟨f, hf, ?_⟩)
    rw [hv]
    exact List.mem_map_of_mem hp

/-- The findings that come from references. -/
theorem relation_mem_findings_iff (hmode : config.mode = .all) {name : String}
    {p : RelationProblem} :
    .field origin name (.relation p) ∈ (Checker.mk r config backend).findings s ↔
      ∃ ours f v, Declares r s origin ours f ∧ f.name = name ∧ ours.get? f.name = some v ∧
        v.isNull = false ∧ f.type.check v = .ok () ∧ f.type.isRelation = true ∧
        p ∈ relationProblems r .all s origin ours f v := by
  have hindex : .field origin name (.relation p) ∉
      (Checker.mk r config backend).indexFindings s := by
    rw [Checker.indexFindings]
    split
    · simp
    · split <;> simp
    · split <;> simp
  have hcollection (collection : String) (models : SortedMap UInt64 Instance) :
      .field origin name (.relation p) ∈
          (Checker.mk r config backend).collectionFindings s collection models ↔
        ∃ c, r.collections.get? collection = some c ∧ ∃ e ∈ models.entries,
          .field origin name (.relation p) ∈
            (Checker.mk r config backend).modelFindings s c ⟨collection, e.1⟩ e.2 := by
    rw [Checker.collectionFindings]
    cases hc : r.collections.get? collection with
    | none => simp
    | some c => simp [hmode, Mode.isMeeting]
  rw [Checker.findings, List.mem_append, or_iff_right hindex, List.mem_flatMap]
  constructor
  · rintro ⟨⟨collection, models⟩, hmodels, h⟩
    obtain ⟨c, hc, ⟨id, ours⟩, hours, h⟩ := (hcollection collection models).1 h
    obtain ⟨rfl, f, hf, hname, v, hv, hp⟩ := relation_mem_modelFindings_iff.1 h
    have hget : s.get? ⟨collection, id⟩ = some ours := by
      rw [Snapshot.get?, Snapshot.instance?, Snapshot.collection?,
        SortedMap.mem_entries_iff.1 hmodels]
      exact SortedMap.mem_entries_iff.1 hours
    exact ⟨ours, f, v, ⟨hget, c, hc, hf⟩, hname, hv, (relation_mem_fieldProblems_iff hmode).1 hp⟩
  · rintro ⟨ours, f, v, ⟨hget, c, hc, hf⟩, hname, hv, hp⟩
    obtain ⟨models, hmodels, hours⟩ := Option.bind_eq_some_iff.1 hget
    refine ⟨(origin.collection, models), SortedMap.mem_entries_iff.2 hmodels,
      (hcollection origin.collection models).2 ⟨c, hc, (origin.id, ours),
        SortedMap.mem_entries_iff.2 hours, ?_⟩⟩
    exact relation_mem_modelFindings_iff.2
      ⟨rfl, f, hf, hname, v, hv, (relation_mem_fieldProblems_iff hmode).2 hp⟩

end Findings

section Reading

variable {a b : Fqid} {ours theirs : Instance} {f g : Field} {item : Json} {target : Target}

/-- The references that the checker finds in a field. -/
def referencesIn (ours : Instance) (f : Field) : List Reference :=
  (ours.get? f.name).elim [] f.type.references

theorem acceptsItem_of_mem_heldItems (htyped : WellTyped r s) (hf : Declares r s a ours f)
    (hrelation : f.type.isRelation = true) (hitem : item ∈ heldItems ours f) :
    f.type.acceptsItem item = true := by
  rw [heldItems] at hitem
  obtain hv | hv | ⟨v, hv, -, haccepts⟩ := htyped.value_cases hf hrelation <;>
    rw [hv] at hitem
  · cases hitem
  · cases hitem
  · exact FieldType.acceptsItem_of_accepts hrelation haccepts item hitem

theorem mem_referencesIn_iff (htyped : WellTyped r s) (hf : Declares r s a ours f)
    (hrelation : f.type.isRelation = true) {reference : Reference} :
    reference ∈ referencesIn ours f ↔
      ∃ item ∈ heldItems ours f, f.type.reference? item = some reference := by
  rw [referencesIn, heldItems]
  obtain hv | hv | ⟨v, hv, -, haccepts⟩ := htyped.value_cases hf hrelation <;> rw [hv]
  · simp
  · simp [references_null, FieldType.itemsOf]
  · exact FieldType.mem_references_iff haccepts

theorem target_of_mem_referencesIn (htyped : WellTyped r s) (hf : Declares r s a ours f)
    (hrelation : f.type.isRelation = true) (href : .allowed b target ∈ referencesIn ours f) :
    target ∈ f.type.targets ∧ target.collection = b.collection := by
  obtain ⟨item, -, hitem⟩ := (mem_referencesIn_iff htyped hf hrelation).1 href
  exact FieldType.target_of_reference? hitem

theorem names_iff (htyped : WellTyped r s) (hf : Declares r s a ours f)
    (hrelation : f.type.isRelation = true) (hitem : item ∈ heldItems ours f) :
    Names f item b ↔ ∃ target, f.type.reference? item = some (.allowed b target) := by
  have haccepts := acceptsItem_of_mem_heldItems htyped hf hrelation hitem
  constructor
  · intro hnames
    exact (FieldType.mentionsItem_iff haccepts hnames.allowed).1 hnames.mentioned
  · rintro ⟨target, href⟩
    have hallowed : f.type.Allows b.collection := ⟨target, FieldType.target_of_reference? href⟩
    exact ⟨hallowed, (FieldType.mentionsItem_iff haccepts hallowed).2 ⟨target, href⟩⟩

/-- A field refers to the models that the checker finds in it. -/
theorem refersTo_iff_mem (htyped : WellTyped r s) (hf : Declares r s a ours f)
    (hrelation : f.type.isRelation = true) :
    RefersTo ours f b ↔ ∃ target, .allowed b target ∈ referencesIn ours f := by
  simp only [mem_referencesIn_iff htyped hf hrelation]
  constructor
  · rintro ⟨item, hitem, hnames⟩
    obtain ⟨target, href⟩ := (names_iff htyped hf hrelation hitem).1 hnames
    exact ⟨target, item, hitem, href⟩
  · rintro ⟨target, item, hitem, href⟩
    exact ⟨item, hitem, (names_iff htyped hf hrelation hitem).2 ⟨target, href⟩⟩

/-- The checker finds the one model that it looks for exactly if the field refers to it. -/
theorem any_refersTo_iff (htyped : WellTyped r s) (hg : Declares r s b theirs g)
    (hallowed : g.type.Allows a.collection) :
    (theirs.get? g.name).any (g.type.refersTo · a) = true ↔ RefersTo theirs g a := by
  have hrelation : g.type.isRelation = true := by
    obtain ⟨target, htarget, -⟩ := hallowed
    exact isRelation_of_mem_targets htarget
  have hmentions : RefersTo theirs g a ↔
      ∃ item ∈ heldItems theirs g, FieldType.mentionsItem a item = true :=
    exists_congr fun item => and_congr_right fun _ =>
      ⟨Names.mentioned, fun hitem => ⟨hallowed, hitem⟩⟩
  rw [hmentions, heldItems]
  obtain hv | hv | ⟨v, hv, -, haccepts⟩ := htyped.value_cases hg hrelation <;> rw [hv]
  · simp
  · simp [refersTo_null, FieldType.itemsOf]
  · rw [Option.any_some, FieldType.refersTo_eq_mentions hrelation haccepts, FieldType.mentions,
      List.any_eq_true, Option.elim_some]

end Reading

section Links

variable {a b : Fqid} {ours : Instance} {f : Field} {target : Target}

/-- The field at the other end of a reference. -/
theorem Declares.exists_reverse (hr : r.IsMirrored) (hf : Declares r s a ours f)
    (htarget : target ∈ f.type.targets) :
    ∃ reverse, r.field? target.collection target.field = some reverse ∧
      reverse.name = target.field ∧ ⟨a.collection, f.name⟩ ∈ reverse.type.targets ∧
      ∀ b theirs, b.collection = target.collection → s.get? b = some theirs →
        Declares r s b theirs reverse := by
  obtain ⟨c, hc, hmem⟩ := hf.field
  obtain ⟨other, reverse, hother, hreverse, hback⟩ := hr.exists_reverse hc hmem htarget
  obtain ⟨hreverseMem, hname⟩ := Collection.mem_of_field? hreverse
  refine ⟨reverse, by rw [Registry.field?, hother]; exact hreverse, hname, hback, ?_⟩
  intro b theirs hb htheirs
  exact ⟨htheirs, other, hb ▸ hother, hreverseMem⟩

/-- A reference without a problem leads to a model that refers back and agrees in every field. -/
theorem referenceProblems_eq_nil_iff {reverse : Field}
    (hreverse : r.field? target.collection target.field = some reverse) :
    referenceProblems r .all s a ours f (.allowed b target) = [] ↔
      ∃ theirs, s.get? b = some theirs ∧
        (theirs.get? target.field).any (reverse.type.refersTo · a) = true ∧
        ∀ name ∈ f.equalFields, (ours.get? name == theirs.get? name) = true := by
  rw [referenceProblems]
  cases htheirs : s.get? b with
  | none => simp [Mode.isMeeting]
  | some theirs =>
    simp only [Mode.isMeeting, Bool.false_and, Bool.false_eq_true, if_false, linkProblems, hreverse,
      disagreements, List.append_eq_nil_iff, List.map_eq_nil_iff, List.filter_eq_nil_iff,
      Option.some.injEq, exists_eq_left']
    refine and_congr ?_ (forall₂_congr fun name _ => ?_)
    · cases (theirs.get? target.field).any (reverse.type.refersTo · a) <;> simp
    · cases heq : (ours.get? name == theirs.get? name) <;> simp [bne, heq]

end Links

def LinksSound (r : Registry) (s : Snapshot) : Prop :=
  ∀ ⦃a ours f⦄, Declares r s a ours f → f.type.isRelation = true →
    ∀ reference ∈ referencesIn ours f, referenceProblems r .all s a ours f reference = []

theorem no_relation_findings_iff_linksSound (htyped : WellTyped r s) (config : Config)
    (hmode : config.mode = .all) (hrepair : config.repair = false) (backend : UInt64) :
    (∀ origin name p, .field origin name (.relation p) ∉
        ((Checker.mk r config backend).run s).2) ↔ LinksSound r s := by
  simp only [Checker.run, hrepair, Bool.false_eq_true, if_false, relation_mem_findings_iff hmode]
  constructor
  · intro hnone a ours f hf hrelation reference href
    rw [List.eq_nil_iff_forall_not_mem]
    intro p hp
    rw [referencesIn] at href
    obtain hv | hv | ⟨v, hv, hnull, haccepts⟩ := htyped.value_cases hf hrelation <;> rw [hv] at href
    · cases href
    · simp [references_null] at href
    · exact hnone a f.name p ⟨ours, f, v, hf, rfl, hv, hnull, FieldType.check_eq_ok_iff.2 haccepts,
        hrelation, List.mem_flatMap.2 ⟨reference, href, hp⟩⟩
  · rintro hsound a name p ⟨ours, f, v, hf, -, hv, -, -, hrelation, hp⟩
    obtain ⟨reference, href, hp⟩ := List.mem_flatMap.1 hp
    rw [hsound hf hrelation reference (by rw [referencesIn, hv]; exact href)] at hp
    cases hp

section Symmetry

variable {a b : Fqid} {ours theirs : Instance} {f g : Field} {target : Target}

/-- A sound reference leads to a model that refers back and agrees. -/
theorem LinksSound.resolved (hsound : LinksSound r s) (hr : r.IsMirrored) (htyped : WellTyped r s)
    (hf : Declares r s a ours f) (hrelation : f.type.isRelation = true)
    (href : .allowed b target ∈ referencesIn ours f) :
    ∃ theirs, s.get? b = some theirs ∧
      (∃ reverse, Declares r s b theirs reverse ∧ reverse.name = target.field ∧
        RefersTo theirs reverse a) ∧
      ∀ name ∈ f.equalFields, (ours.get? name == theirs.get? name) = true := by
  obtain ⟨htarget, hcollection⟩ := target_of_mem_referencesIn htyped hf hrelation href
  obtain ⟨reverse, hreverse, hname, hback, hdeclares⟩ := hf.exists_reverse hr htarget
  obtain ⟨theirs, htheirs, hany, hagree⟩ :=
    (referenceProblems_eq_nil_iff hreverse).1 (hsound hf hrelation _ href)
  have hg := hdeclares b theirs hcollection.symm htheirs
  rw [← hname, any_refersTo_iff htyped hg ⟨_, hback, rfl⟩] at hany
  exact ⟨theirs, htheirs, ⟨reverse, hg, hname, hany⟩, hagree⟩

theorem LinksSound.refersTo_back (hsound : LinksSound r s) (hr : r.IsMirrored)
    (hdiffer : TargetsDiffer r) (htyped : WellTyped r s) (hf : Declares r s a ours f)
    (hg : Declares r s b theirs g) (hfg : ⟨b.collection, g.name⟩ ∈ f.type.targets)
    (hgf : ⟨a.collection, f.name⟩ ∈ g.type.targets) (hrefers : RefersTo ours f b) :
    RefersTo theirs g a := by
  have hrelation := isRelation_of_mem_targets hfg
  obtain ⟨c, hc, hmem⟩ := hf.field
  obtain ⟨target, href⟩ := (refersTo_iff_mem htyped hf hrelation).1 hrefers
  obtain ⟨htarget, hcollection⟩ := target_of_mem_referencesIn htyped hf hrelation href
  obtain rfl := target_unique hdiffer hc hmem htarget hfg hcollection
  obtain ⟨theirs', htheirs', ⟨reverse, -, hname, item, hitem, hnames⟩, -⟩ :=
    hsound.resolved hr htyped hf hrelation href
  obtain rfl := Option.some.inj (hg.model.symm.trans htheirs')
  -- the two fields at this end have one name, so they hold the same items
  rw [heldItems, hname] at hitem
  exact ⟨item, hitem, ⟨_, hgf, rfl⟩, hnames.mentioned⟩

theorem LinksSound.integrity (hsound : LinksSound r s) (hr : r.IsMirrored)
    (hdiffer : TargetsDiffer r) (htyped : WellTyped r s) : Integrity r s where
  resolved hf hrelation item hitem := by
    obtain ⟨reference, href⟩ :=
      FieldType.exists_reference (acceptsItem_of_mem_heldItems htyped hf hrelation hitem)
    have hmem := (mem_referencesIn_iff htyped hf hrelation).2 ⟨item, hitem, href⟩
    cases reference with
    | foreign collection =>
      have hproblem := hsound hf hrelation _ hmem
      simp [referenceProblems] at hproblem
    | allowed b target =>
      obtain ⟨theirs, htheirs, -⟩ := hsound.resolved hr htyped hf hrelation hmem
      exact ⟨b, (names_iff htyped hf hrelation hitem).2 ⟨target, href⟩, by rw [htheirs]; rfl⟩
  symmetric hf hg hfg hgf :=
    ⟨hsound.refersTo_back hr hdiffer htyped hf hg hfg hgf,
      hsound.refersTo_back hr hdiffer htyped hg hf hgf hfg⟩
  agreeing hf hrefers htheirs := by
    have hrelation := hrefers.isRelation
    obtain ⟨target, href⟩ := (refersTo_iff_mem htyped hf hrelation).1 hrefers
    obtain ⟨theirs, htheirs', -, hagree⟩ := hsound.resolved hr htyped hf hrelation href
    obtain rfl := Option.some.inj (htheirs.symm.trans htheirs')
    exact hagree

theorem Integrity.linksSound (hintegrity : Integrity r s) (hr : r.IsMirrored)
    (htyped : WellTyped r s) : LinksSound r s := by
  intro a ours f hf hrelation reference href
  obtain ⟨item, hitem, hreference⟩ := (mem_referencesIn_iff htyped hf hrelation).1 href
  obtain ⟨b, hnames, hthere⟩ := hintegrity.resolved hf hrelation item hitem
  obtain ⟨target, hallowed⟩ := (names_iff htyped hf hrelation hitem).1 hnames
  obtain rfl := Option.some.inj (hreference.symm.trans hallowed)
  obtain ⟨theirs, htheirs⟩ := Option.isSome_iff_exists.1 hthere
  obtain ⟨htarget, hcollection⟩ := FieldType.target_of_reference? hreference
  obtain ⟨reverse, hreverse, hname, hback, hdeclares⟩ := hf.exists_reverse hr htarget
  have hg := hdeclares b theirs hcollection.symm htheirs
  have hrefers : RefersTo ours f b := ⟨item, hitem, hnames⟩
  refine (referenceProblems_eq_nil_iff hreverse).2 ⟨theirs, htheirs, ?_,
    hintegrity.agreeing hf hrefers htheirs⟩
  have hforth : ⟨b.collection, reverse.name⟩ ∈ f.type.targets := by
    rw [← hcollection, hname]
    exact htarget
  rw [← hname, any_refersTo_iff htyped hg ⟨_, hback, rfl⟩]
  exact (hintegrity.symmetric hf hg hforth hback).1 hrefers

end Symmetry

/-- A check of a whole dataset without repair finds nothing wrong with its relations exactly if its
references are sound. -/
theorem no_relation_findings_iff_integrity {text : String} (hr : Registry.ofText text = .ok r)
    (hdiffer : TargetsDiffer r) (htyped : WellTyped r s) (config : Config)
    (hmode : config.mode = .all) (hrepair : config.repair = false) (backend : UInt64) :
    (∀ origin name p, .field origin name (.relation p) ∉
        ((Checker.mk r config backend).run s).2) ↔ Integrity r s := by
  have hmirrored := Registry.isMirrored_of_ofText hr
  rw [no_relation_findings_iff_linksSound htyped config hmode hrepair backend]
  exact ⟨fun hsound => hsound.integrity hmirrored hdiffer htyped,
    fun hintegrity => hintegrity.linksSound hmirrored htyped⟩

def roomsText : String :=
  "room:\n  id:\n    type: number\n  seat_ids:\n    type: relation-list\n    to: seat/room_id\n" ++
  "seat:\n  id:\n    type: number\n  room_id:\n    type: relation\n    to: room/seat_ids\n"

/-- A room that lists seats and a seat that is in this room. -/
def roomWith (seats : List UInt64) : Snapshot :=
  ((Snapshot.empty 4).insert "room" 1 ((∅ : Instance).insert "seat_ids" (.ofIds seats))).insert
    "seat" 2 ((∅ : Instance).insert "room_id" (.ofUInt64 1))

/-- The seat has to be listed in its room. -/
theorem integrity_of_oneSeat :
    ∃ r, Registry.ofText roomsText = .ok r ∧ TargetsDiffer r ∧
      (WellTyped r (roomWith [2]) ∧ Integrity r (roomWith [2])) ∧
      WellTyped r (roomWith []) ∧ ¬ Integrity r (roomWith []) := by
  have hall : (Registry.ofText roomsText).toOption.any (fun r =>
      decide (TargetsDiffer r) && (wellTyped r (roomWith [2]) && wellTyped r (roomWith [])) &&
        (((Checker.mk r { mode := .all } 4).run (roomWith [2])).2.isEmpty &&
          ((Checker.mk r { mode := .all } 4).run (roomWith [])).2.any fun
            | .field _ _ (.relation _) => true
            | _ => false)) = true := by
    rw [Registry.ofText, Yaml.parse?, toList_of_eq_ofList (s := roomsText)
      (append_eq_ofList rfl rfl)]
    decide +kernel
  obtain ⟨r, hr, hall⟩ := exists_eq_ok_of_any hall
  simp only [Bool.and_eq_true, decide_eq_true_eq] at hall
  obtain ⟨⟨hdiffer, htyped, htypedWithout⟩, hnone, hsome⟩ := hall
  have htyped := wellTyped_of_eq_true htyped
  have htypedWithout := wellTyped_of_eq_true htypedWithout
  refine ⟨r, hr, hdiffer, ⟨htyped, ?_⟩, htypedWithout, ?_⟩
  · refine (no_relation_findings_iff_integrity hr hdiffer htyped { mode := .all } rfl rfl 4).1 ?_
    intro origin name p h
    rw [List.isEmpty_iff.1 hnone] at h
    cases h
  · intro hintegrity
    obtain ⟨finding, hmem, hfinding⟩ := List.any_eq_true.1 hsome
    split at hfinding
    · exact (no_relation_findings_iff_integrity hr hdiffer htypedWithout { mode := .all } rfl rfl
        4).2 hintegrity _ _ _ hmem
    · cases hfinding

end MeetingLedger.Consistency
