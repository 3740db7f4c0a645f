import MeetingLedger.Consistency.Relation
import MeetingLedger.Proofs.Fqid
import MeetingLedger.Proofs.Schema.Mirror

/-!
# The models that a relation value names

A relation value is an id, a full name or a list of either. What it names is said here of its items
alone. The checker reads the value twice: it lists the references of one end, and for the other end
it asks whether one model is referred to, comparing texts where the first reading parses them. On
values of the right type both readings find what the items name.
-/

namespace MeetingLedger.Schema.FieldType

section Naming

/-- The items of a list; any other value but `null` is its own only item. -/
def itemsOf : Json → List Json
  | .null => []
  | .array items => items
  | v => [v]

/-- An item is the id or the full name of a model. -/
def mentionsItem (model : Fqid) (item : Json) : Bool :=
  item.id? == some model.id || item.string? == some model.text

def mentions (model : Fqid) (v : Json) : Bool :=
  (itemsOf v).any (mentionsItem model)

/-- A type may point to a collection. -/
def Allows (type : FieldType) (collection : String) : Prop :=
  ∃ target ∈ type.targets, target.collection = collection

def acceptsItem : FieldType → Json → Bool
  | relation _, item | relationList _, item => isId item
  | genericRelation _, item | genericRelationList _, item => isFqid item
  | scalar _, _ | array _, _ => false

def reference? (type : FieldType) (item : Json) : Option Reference :=
  match type with
  | relation target | relationList target => plainReference? target item
  | genericRelation _ | genericRelationList _ => type.genericReference? item
  | scalar _ | array _ => none

end Naming

variable {type : FieldType} {v item : Json} {model : Fqid} {target : Target}

theorem itemsOf_of_isId (hv : isId v = true) : itemsOf v = [v] := by
  cases v <;> first | rfl | cases hv

theorem itemsOf_of_isFqid (hv : isFqid v = true) : itemsOf v = [v] := by
  cases v <;> first | rfl | cases hv

theorem exists_items_of_any {p : Json → Bool} (hv : v.array?.any (·.all p) = true) :
    ∃ items, v = .array items ∧ ∀ item ∈ items, p item = true := by
  cases v with
  | array items => exact ⟨items, rfl, List.all_eq_true.1 hv⟩
  | _ => cases hv

theorem acceptsItem_of_accepts (hrelation : type.isRelation = true) (hv : type.accepts v = true) :
    ∀ item ∈ itemsOf v, type.acceptsItem item = true := by
  cases type with
  | relation t => rw [itemsOf_of_isId hv, List.forall_mem_singleton]; exact hv
  | genericRelation ts => rw [itemsOf_of_isFqid hv, List.forall_mem_singleton]; exact hv
  | relationList t | genericRelationList ts =>
    obtain ⟨items, rfl, hitems⟩ := exists_items_of_any hv
    exact hitems
  | scalar s | array s => cases hrelation

/-- The references of a value are those of its items. -/
theorem mem_references_iff (hv : type.accepts v = true) {reference : Reference} :
    reference ∈ type.references v ↔ ∃ item ∈ itemsOf v, type.reference? item = some reference := by
  cases type with
  | relation t => simp [itemsOf_of_isId hv, references, reference?]
  | genericRelation ts => simp [itemsOf_of_isFqid hv, references, reference?]
  | relationList t | genericRelationList ts =>
    obtain ⟨items, rfl, -⟩ := exists_items_of_any hv
    simp [itemsOf, references, reference?, Json.array?]
  | scalar s | array s => simp [references, reference?]

section Reference

theorem plainReference?_eq_some {reference : Reference}
    (h : plainReference? target item = some reference) :
    ∃ id, item.id? = some id ∧ reference = .allowed ⟨target.collection, id⟩ target := by
  obtain ⟨id, hid, rfl⟩ := Option.map_eq_some_iff.1 h
  exact ⟨id, hid, rfl⟩

theorem genericReference?_eq_allowed
    (h : type.genericReference? item = some (.allowed model target)) :
    (∃ raw, item.string? = some raw ∧ Fqid.parse? raw = some model) ∧
      type.targetFor? model.collection = some target := by
  obtain ⟨raw, hraw, h⟩ := Option.bind_eq_some_iff.1 h
  obtain ⟨found, hfound, h⟩ := Option.bind_eq_some_iff.1 h
  split at h
  · rename_i t ht
    cases h
    exact ⟨⟨raw, hraw, hfound⟩, ht⟩
  · cases h

/-- A reference that is allowed leads to a declared target in the collection of the model. -/
theorem target_of_reference? (h : type.reference? item = some (.allowed model target)) :
    target ∈ type.targets ∧ target.collection = model.collection := by
  cases type with
  | relation t | relationList t =>
    obtain ⟨id, -, heq⟩ := plainReference?_eq_some h
    cases heq
    exact ⟨List.mem_singleton.2 rfl, rfl⟩
  | genericRelation ts | genericRelationList ts =>
    exact targetFor?_eq_some (genericReference?_eq_allowed h).2
  | scalar s | array s => cases h

theorem exists_reference (hitem : type.acceptsItem item = true) :
    ∃ reference, type.reference? item = some reference := by
  cases type with
  | relation t | relationList t =>
    obtain ⟨id, hid, -⟩ := (Option.any_eq_true _ _).1 hitem
    exact ⟨_, Option.map_eq_some_iff.2 ⟨id, hid, rfl⟩⟩
  | genericRelation ts | genericRelationList ts =>
    obtain ⟨found, hfound⟩ := Option.isSome_iff_exists.1 hitem
    obtain ⟨raw, hraw, hparse⟩ := Option.bind_eq_some_iff.1 hfound
    rw [reference?, genericReference?, hraw, Option.bind_eq_bind, Option.bind_some, hparse,
      Option.bind_eq_bind, Option.bind_some]
    split <;> exact ⟨_, rfl⟩
  | scalar s | array s => cases hitem

theorem mentionsItem_of_isId (model : Fqid) (hitem : isId item = true) :
    mentionsItem model item = (item.id? == some model.id) := by
  cases item <;> first | cases hitem | simp [mentionsItem, Json.string?]

theorem mentionsItem_of_isFqid (model : Fqid) (hitem : isFqid item = true) :
    mentionsItem model item = (item.string? == some model.text) := by
  cases item <;> first | cases hitem | simp [mentionsItem, Json.id?]

theorem id?_beq_iff (hcollection : target.collection = model.collection) :
    (item.id? == some model.id) = true ↔
      ∃ t, plainReference? target item = some (.allowed model t) := by
  rw [beq_iff_eq]
  constructor
  · intro hid
    refine ⟨target, ?_⟩
    rw [plainReference?, hid, hcollection]
    rfl
  · rintro ⟨t, ht⟩
    obtain ⟨id, hid, heq⟩ := plainReference?_eq_some ht
    cases heq
    exact hid

/-- A full name is compared as a text on one side and read on the other. -/
theorem string?_beq_iff (hitem : isFqid item = true) (hallowed : type.Allows model.collection) :
    (item.string? == some model.text) = true ↔
      ∃ t, type.genericReference? item = some (.allowed model t) := by
  obtain ⟨found, hfound⟩ := Option.isSome_iff_exists.1 hitem
  obtain ⟨raw, hraw, hparse⟩ := Option.bind_eq_some_iff.1 hfound
  rw [beq_iff_eq, hraw, Option.some.injEq, Fqid.text_of_parse? hparse, Fqid.text_injective.eq_iff]
  constructor
  · rintro rfl
    obtain ⟨target, htarget, hcollection⟩ := hallowed
    obtain ⟨t, ht⟩ : ∃ t, type.targetFor? found.collection = some t := by
      rw [← Option.isSome_iff_exists, targetFor?, List.find?_isSome]
      exact ⟨target, htarget, by simp [hcollection]⟩
    exact ⟨t, by simp [genericReference?, hraw, hparse, ht]⟩
  · rintro ⟨t, ht⟩
    obtain ⟨⟨raw', hraw', hparse'⟩, -⟩ := genericReference?_eq_allowed ht
    rw [hraw] at hraw'
    cases hraw'
    exact Option.some.inj (hparse.symm.trans hparse')

/-- An item mentions a model in a collection that is allowed exactly if its reference leads to the
model. -/
theorem mentionsItem_iff (hitem : type.acceptsItem item = true)
    (hallowed : type.Allows model.collection) :
    mentionsItem model item = true ↔ ∃ t, type.reference? item = some (.allowed model t) := by
  cases type with
  | relation t | relationList t =>
    obtain ⟨target, htarget, hcollection⟩ := hallowed
    obtain rfl := List.mem_singleton.1 htarget
    rw [mentionsItem_of_isId model hitem]
    exact id?_beq_iff hcollection
  | genericRelation ts | genericRelationList ts =>
    rw [mentionsItem_of_isFqid model hitem]
    exact string?_beq_iff hitem hallowed
  | scalar s | array s => cases hitem

end Reference

/-- Whether a value refers to a model depends on the type only in that the type accepts the value. -/
theorem refersTo_eq_mentions (hrelation : type.isRelation = true) (hv : type.accepts v = true) :
    type.refersTo v model = mentions model v := by
  have hany {items : List Json} {p q : Json → Bool} (h : ∀ i ∈ items, p i = q i) :
      items.any p = items.any q := by
    rw [Bool.eq_iff_iff, List.any_eq_true, List.any_eq_true]
    exact exists_congr fun i => and_congr_right fun hi => by rw [h i hi]
  cases type with
  | relation t =>
    simp [mentions, itemsOf_of_isId hv, refersTo, mentionsItem_of_isId model hv]
  | genericRelation ts =>
    simp [mentions, itemsOf_of_isFqid hv, refersTo, mentionsItem_of_isFqid model hv]
  | relationList t =>
    obtain ⟨items, rfl, hitems⟩ := exists_items_of_any hv
    exact hany fun i hi => (mentionsItem_of_isId model (hitems i hi)).symm
  | genericRelationList ts =>
    obtain ⟨items, rfl, hitems⟩ := exists_items_of_any hv
    exact hany fun i hi => (mentionsItem_of_isFqid model (hitems i hi)).symm
  | scalar s | array s => cases hrelation

end MeetingLedger.Schema.FieldType
