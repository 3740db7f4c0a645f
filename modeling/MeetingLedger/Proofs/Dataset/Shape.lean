import MeetingLedger.Proofs.Dataset.Image

/-!
# Documents and their snapshots

Whatever document a snapshot was read from, its image is read back as this snapshot. Nothing is
wrong with a document exactly if it has the shape of a dataset, and then it is the image of the
snapshot but for the reserved names that no snapshot keeps.
-/

namespace MeetingLedger

theorem parseId?_eq_some_iff {key : String} {id : UInt64} :
    parseId? key.toList = some id ↔ 0 < id ∧ key = toString id.toNat := by
  constructor
  · intro h
    refine ⟨pos_of_parseId? h, String.toList_inj.1 ?_⟩
    simpa using toDigits_of_parseId? h
  · rintro ⟨hpos, rfl⟩
    simpa using parseId?_toDigits hpos

namespace Json

variable {v : Json} {entries : List (String × Json)}

theorem id?_eq_some_iff {n : UInt64} : v.id? = some n ↔ v = .ofUInt64 n := by
  constructor
  · intro h
    cases v with
    | number x =>
      cases x with
      | whole w =>
        rw [id?, Whole.toUInt64?] at h
        split at h
        · rename_i hnonneg
          obtain ⟨value, bounded⟩ := w
          obtain rfl := Option.some.inj h
          simp only [ofUInt64, Whole.ofUInt64, Json.number.injEq, Number.whole.injEq,
            Whole.mk.injEq, UInt64.toNat_ofNat']
          simp only at hnonneg
          rw [Nat.mod_eq_of_lt (by omega)]
          omega
        · cases h
      | real x => cases h
    | _ => cases h
  · rintro rfl
    exact id?_ofUInt64 n

theorem members?_eq_some_iff : v.members? = some entries ↔ v = .object entries := by
  cases v <;> simp [members?]

/-- A value in which the members of all objects are in order. -/
def IsSorted (v : Json) : Prop := ∃ w : Json, w.sorted = v

theorem isSorted_of_mem_sortedMembers {m : String × Json} (h : m ∈ sortedMembers entries) :
    m.2.IsSorted := by
  induction entries with
  | nil => cases h
  | cons e entries ih =>
    obtain ⟨k, w⟩ := e
    rw [sortedMembers] at h
    rcases List.mem_cons.1 h with rfl | h
    · exact ⟨w, rfl⟩
    · exact ih h

namespace IsSorted

variable (h : (object entries).IsSorted)

include h

theorem ascending : Ascending entries := by
  obtain ⟨w, hw⟩ := h
  cases w with
  | object ms =>
    obtain rfl := Json.object.inj hw
    exact Entries.ascending_ofList _
  | _ => cases hw

theorem member {m : String × Json} (hm : m ∈ entries) : m.2.IsSorted := by
  obtain ⟨w, hw⟩ := h
  cases w with
  | object ms =>
    obtain rfl := Json.object.inj hw
    exact isSorted_of_mem_sortedMembers
      (SortedMap.mem_of_get?_ofList (SortedMap.mem_entries_iff.1 hm))
  | _ => cases hw

theorem get?_ofList {key : String} : (SortedMap.ofList entries).get? key = some v ↔
    (key, v) ∈ entries := by
  rw [← SortedMap.mem_entries_iff, SortedMap.entries_ofList h.ascending]

theorem member?_eq_some_iff {key : String} :
    (object entries).member? key = some v ↔ (key, v) ∈ entries := by
  have hmap := member?_ofMap ⟨entries, h.ascending⟩ key
  rw [ofMap] at hmap
  rw [hmap, ← SortedMap.mem_entries_iff]

theorem mem_ofList_filterMap {κ α : Type} [Ord κ] [DecidableEq κ] [Std.TransOrd κ]
    [Std.LawfulEqOrd κ] {read : String × Json → Option (κ × α)}
    (hread : ∀ {m m' d d'}, read m = some d → read m' = some d' → d.1 = d'.1 → m.1 = m'.1)
    {d : κ × α} :
    d ∈ (SortedMap.ofList (entries.filterMap read)).entries ↔ ∃ m ∈ entries, read m = some d := by
  rw [SortedMap.mem_entries_ofList, List.mem_filterMap]
  intro k a b ha hb
  obtain ⟨⟨name, v⟩, hm, hma⟩ := List.mem_filterMap.1 ha
  obtain ⟨⟨name', v'⟩, hm', hmb⟩ := List.mem_filterMap.1 hb
  obtain rfl : name = name' := hread hma hmb rfl
  have hsame : v = v' := by
    rw [Entries.mem_iff_find? h.ascending] at hm hm'
    exact Option.some.inj (hm.symm.trans hm')
  subst hsame
  exact congrArg Prod.snd (Option.some.inj (hma.symm.trans hmb))

end IsSorted

end Json

namespace Snapshot

/-- A member of a collection that stands for a model: a positive id in decimal notation, and fields of
which none says otherwise about the id. -/
def IsModelMember (member : String × Json) : Prop :=
  ∃ (id : UInt64) (fields : List (String × Json)), 0 < id ∧ member.1 = toString id.toNat ∧
    member.2 = .object fields ∧ ∀ v, ("id", v) ∈ fields → v = .ofUInt64 id

/-- An object of models by their ids. -/
def IsCollection (v : Json) : Prop :=
  ∃ models, v = .object models ∧ ∀ member ∈ models, IsModelMember member

/-- A document with the shape of a dataset: an object with a migration index that is an id, if it has
one, and with a collection under each name that is not reserved. -/
def HasShape (document : Json) : Prop :=
  ∃ members, document = .object members ∧ ∀ member ∈ members,
    (member.1 = migrationIndexKey → ∃ n : UInt64, member.2 = .ofUInt64 n) ∧
    (isReserved member.1 = false → IsCollection member.2)

/-- A document without the reserved names, that of the migration index apart. -/
def withoutReserved : Json → Json
  | .object members =>
    .object (members.filter fun m => m.1 == migrationIndexKey || !isReserved m.1)
  | v => v

section Models

variable {member : String × Json}

/-- Only a positive id and an object are read as a model. -/
theorem modelOf?_eq_some_iff {e : UInt64 × Instance} : modelOf? member = some e ↔
    0 < e.1 ∧ member.1 = toString e.1.toNat ∧
      ∃ fields, member.2 = .object fields ∧ e.2 = SortedMap.ofList fields := by
  obtain ⟨id, i⟩ := e
  simp only [modelOf?, Option.bind_eq_bind, Option.bind_eq_some_iff, parseId?_eq_some_iff,
    Json.members?_eq_some_iff, Option.some.injEq, Prod.mk.injEq]
  constructor
  · rintro ⟨_, ⟨hpos, hkey⟩, fields, hfields, rfl, rfl⟩
    exact ⟨hpos, hkey, fields, hfields, rfl⟩
  · rintro ⟨hpos, hkey, fields, hfields, rfl⟩
    exact ⟨id, ⟨hpos, hkey⟩, fields, hfields, rfl, rfl⟩

/-- A model is written as the member that it was read from. -/
theorem memberOf_of_modelOf? {e : UInt64 × Instance} (hsorted : member.2.IsSorted)
    (h : modelOf? member = some e) : memberOf e = member := by
  obtain ⟨-, hkey, fields, hfields, he⟩ := modelOf?_eq_some_iff.1 h
  rw [hfields] at hsorted
  rw [memberOf, ← hkey, Json.ofMap, he, SortedMap.entries_ofList hsorted.ascending, ← hfields]

theorem fst_eq_of_modelOf? {member' : String × Json} {e e' : UInt64 × Instance}
    (h : modelOf? member = some e) (h' : modelOf? member' = some e') (hid : e.1 = e'.1) :
    member.1 = member'.1 := by
  rw [(modelOf?_eq_some_iff.1 h).2.1, (modelOf?_eq_some_iff.1 h').2.1, hid]

theorem isModelMember_iff (hsorted : member.2.IsSorted) : IsModelMember member ↔
    ∃ id, parseId? member.1.toList = some id ∧ ∃ fields, member.2.members? = some fields ∧
      ∀ v, (SortedMap.ofList fields : Instance).get? "id" = some v → v.id? = some id := by
  have hget {fields : List (String × Json)} (hfields : member.2 = .object fields) {v : Json} :
      (SortedMap.ofList fields : Instance).get? "id" = some v ↔ ("id", v) ∈ fields := by
    rw [hfields] at hsorted
    exact hsorted.get?_ofList
  simp only [IsModelMember, parseId?_eq_some_iff, Json.members?_eq_some_iff, Json.id?_eq_some_iff]
  constructor
  · rintro ⟨id, fields, hpos, hkey, hfields, hid⟩
    exact ⟨id, ⟨hpos, hkey⟩, fields, hfields, fun v hv => hid v ((hget hfields).1 hv)⟩
  · rintro ⟨id, ⟨hpos, hkey⟩, fields, hfields, hid⟩
    exact ⟨id, fields, hpos, hkey, hfields, fun v hv => hid v ((hget hfields).2 hv)⟩

theorem modelProblems_eq_nil_iff {name : String} (hsorted : member.2.IsSorted) :
    modelProblems name member = [] ↔ IsModelMember member := by
  rw [isModelMember_iff hsorted, modelProblems]
  cases parseId? member.1.toList with
  | none => simp
  | some id =>
    cases member.2.members? with
    | none => simp
    | some fields =>
      dsimp only
      split
      · rename_i hnone
        simp [hnone]
      · rename_i found hfound
        simp [hfound]

/-- What is read from the members of a collection, if all of them are models. -/
theorem collectionToJson_models {models : List (String × Json)}
    (hsorted : (Json.object models).IsSorted) (hmodels : ∀ m ∈ models, IsModelMember m) :
    collectionToJson (SortedMap.ofList (models.filterMap modelOf?)) = .object models := by
  have hread {e : UInt64 × Instance} :
      e ∈ (SortedMap.ofList (models.filterMap modelOf?)).entries ↔
        ∃ m ∈ models, modelOf? m = some e :=
    hsorted.mem_ofList_filterMap fst_eq_of_modelOf?
  have hids : HavePositiveIds (SortedMap.ofList (models.filterMap modelOf?)) := by
    intro id i hi
    obtain ⟨m, -, hm⟩ := hread.1 (SortedMap.mem_entries_iff.2 hi)
    exact (modelOf?_eq_some_iff.1 hm).1
  refine congrArg Json.object
    (Entries.eq_of_mem_iff (Entries.ascending_ofList _) hsorted.ascending fun m => ?_)
  refine (mem_members hids).trans ?_
  constructor
  · rintro ⟨e, he, rfl⟩
    obtain ⟨m, hm, hme⟩ := hread.1 he
    rwa [memberOf_of_modelOf? (hsorted.member hm) hme]
  · intro hm
    obtain ⟨id, fields, hpos, hkey, hfields, -⟩ := hmodels m hm
    have hme : modelOf? m = some (id, SortedMap.ofList fields) :=
      modelOf?_eq_some_iff.2 ⟨hpos, hkey, fields, hfields, rfl⟩
    exact ⟨_, hread.2 ⟨m, hm, hme⟩, memberOf_of_modelOf? (hsorted.member hm) hme⟩

end Models

section Documents

variable {member : String × Json} {document : Json}

/-- A collection is read from a member with its name, and from its models what can be read. -/
theorem collectionOf?_eq_some_iff {e : String × SortedMap UInt64 Instance} :
    collectionOf? member = some e ↔ isReserved member.1 = false ∧ e.1 = member.1 ∧
      ∃ models, member.2 = .object models ∧ e.2 = SortedMap.ofList (models.filterMap modelOf?) := by
  obtain ⟨name, collection⟩ := e
  rw [collectionOf?]
  cases hreserved : isReserved member.1 with
  | true => simp
  | false =>
    simp only [Bool.false_eq_true, if_false, Option.map_eq_some_iff, Json.members?_eq_some_iff,
      Prod.mk.injEq, true_and]
    constructor
    · rintro ⟨models, hmodels, rfl, rfl⟩
      exact ⟨rfl, models, hmodels, rfl⟩
    · rintro ⟨rfl, models, hmodels, rfl⟩
      exact ⟨models, hmodels, rfl, rfl⟩

theorem isKeyed_parse (document : Json) : (parse document).1.IsKeyed := by
  intro name models hmodels
  cases document with
  | object members =>
    obtain ⟨member, -, hread⟩ := List.mem_filterMap.1 (SortedMap.mem_of_get?_ofList hmodels)
    obtain ⟨hname, rfl, items, -, rfl⟩ := collectionOf?_eq_some_iff.1 hread
    refine ⟨hname, fun id i hi => ?_⟩
    obtain ⟨m, -, hm⟩ := List.mem_filterMap.1 (SortedMap.mem_of_get?_ofList hi)
    exact (modelOf?_eq_some_iff.1 hm).1
  | _ => cases hmodels

theorem memberProblems_eq_nil_iff (hsorted : member.2.IsSorted) : memberProblems member = [] ↔
    (member.1 = migrationIndexKey → ∃ n : UInt64, member.2 = .ofUInt64 n) ∧
      (isReserved member.1 = false → IsCollection member.2) := by
  rw [memberProblems]
  by_cases hindex : member.1 = migrationIndexKey
  · simp [hindex, isReserved_migrationIndexKey, Option.isSome_iff_exists, Json.id?_eq_some_iff]
  · cases hreserved : isReserved member.1 with
    | true => simp [hindex]
    | false =>
      simp only [hindex, if_false, Bool.false_eq_true, false_implies, true_and, IsCollection,
        true_implies, ← Json.members?_eq_some_iff]
      cases hmodels : member.2.members? with
      | none => simp
      | some models =>
        rw [Json.members?_eq_some_iff] at hmodels
        rw [hmodels] at hsorted
        simp only [List.flatMap_eq_nil_iff, Option.some.injEq, exists_eq_left']
        exact forall₂_congr fun m hm => modelProblems_eq_nil_iff (hsorted.member hm)

/-- Nothing is wrong with a document exactly if it has the shape of a dataset. -/
theorem problems_eq_nil_iff (hsorted : document.IsSorted) :
    (parse document).2 = [] ↔ HasShape document := by
  cases document with
  | object members =>
    simp only [parse, List.flatMap_eq_nil_iff, HasShape, Json.object.injEq, exists_eq_left']
    exact forall₂_congr fun m hm => memberProblems_eq_nil_iff (hsorted.member hm)
  | _ => simp [parse, HasShape]

/-- A document with the shape of a dataset is written as it was read, but for reserved names. -/
theorem toJson_parse (hsorted : document.IsSorted) (hshape : HasShape document) :
    (parse document).1.toJson = withoutReserved document := by
  obtain ⟨members, rfl, hmembers⟩ := hshape
  have hread {e : String × SortedMap UInt64 Instance} :
      e ∈ (SortedMap.ofList (members.filterMap collectionOf?)).entries ↔
        ∃ m ∈ members, collectionOf? m = some e := by
    refine hsorted.mem_ofList_filterMap fun {m m' e e'} hm hm' heq => ?_
    rw [← (collectionOf?_eq_some_iff.1 hm).2.1, ← (collectionOf?_eq_some_iff.1 hm').2.1, heq]
  have hcollection {m : String × Json} (hm : m ∈ members) {e : String × SortedMap UInt64 Instance}
      (hme : collectionOf? m = some e) : (e.1, collectionToJson e.2) = m := by
    obtain ⟨hname, hkey, models, hmodels, he⟩ := collectionOf?_eq_some_iff.1 hme
    obtain ⟨_, hobject, hitems⟩ := (hmembers m hm).2 hname
    have hmsorted := hsorted.member hm
    obtain rfl := Json.object.inj (hmodels.symm.trans hobject)
    rw [hmodels] at hmsorted
    rw [he, collectionToJson_models hmsorted hitems, hkey, ← hmodels]
  have hindex {n : UInt64} : (parse (.object members)).1.migrationIndex = some n ↔
      (migrationIndexKey, Json.ofUInt64 n) ∈ members := by
    change ((Json.object members).member? migrationIndexKey).bind Json.id? = some n ↔ _
    simp only [Option.bind_eq_some_iff, hsorted.member?_eq_some_iff, Json.id?_eq_some_iff,
      exists_eq_right]
  refine congrArg Json.object (Entries.eq_of_mem_iff (Entries.ascending_ofList _)
    (List.Pairwise.filter _ hsorted.ascending) fun m => ?_)
  refine (mem_members_iff (isKeyed_parse _)).trans ?_
  rw [List.mem_filter, Bool.or_eq_true, beq_iff_eq, Bool.not_eq_true']
  constructor
  · rintro (⟨n, hn, rfl⟩ | ⟨e, he, rfl⟩)
    · exact ⟨hindex.1 hn, .inl rfl⟩
    · obtain ⟨m, hm, hme⟩ := hread.1 he
      rw [hcollection hm hme]
      exact ⟨hm, .inr (collectionOf?_eq_some_iff.1 hme).1⟩
  · rintro ⟨hm, hkey | hname⟩
    · obtain ⟨n, hn⟩ := (hmembers m hm).1 hkey
      obtain rfl : (migrationIndexKey, Json.ofUInt64 n) = m := Prod.ext hkey.symm hn.symm
      exact .inl ⟨n, hindex.2 hm, rfl⟩
    · obtain ⟨models, hmodels, -⟩ := (hmembers m hm).2 hname
      have hme : collectionOf? m = some (m.1, SortedMap.ofList (models.filterMap modelOf?)) :=
        collectionOf?_eq_some_iff.2 ⟨hname, rfl, models, hmodels, rfl⟩
      exact .inr ⟨_, hread.2 ⟨m, hm, hme⟩, hcollection hm hme⟩

end Documents

/-- What is read from a document is read again from its own image; nothing is wrong with the document
exactly if it has the shape of a dataset, and then the image is the document without the reserved
names that no snapshot keeps. -/
theorem reading_loses_nothing (v : Json) :
    let document := v.sorted
    let s := (parse document).1
    (parse s.toJson).1 = s ∧ ((parse document).2 = [] ↔ HasShape document) ∧
      ((parse document).2 = [] → s.toJson = withoutReserved document) := by
  intro document s
  have hsorted : document.IsSorted := ⟨v, rfl⟩
  have hproblems := problems_eq_nil_iff hsorted
  exact ⟨fst_parse_toJson (isKeyed_parse document), hproblems,
    fun h => toJson_parse hsorted (hproblems.1 h)⟩

end Snapshot

end MeetingLedger
