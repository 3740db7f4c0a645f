import MeetingLedger.Proofs.Container.Lookup
import MeetingLedger.Proofs.Fqid
import MeetingLedger.Dataset.Snapshot

/-!
# Snapshots and their JSON images

The image of a snapshot in which names are not reserved and ids are positive is read back as this
snapshot, and nothing is wrong with it if the instances know their ids.
-/

namespace MeetingLedger

namespace Json

theorem member?_ofMap (m : SortedMap String Json) (name : String) :
    (ofMap m).member? name = m.get? name := by
  apply Option.ext
  intro v
  simp only [member?, ofMap, members?, Option.bind_some, Option.map_eq_some_iff]
  constructor
  · rintro ⟨⟨k, v'⟩, hfind, rfl⟩
    obtain rfl : k = name := by simpa using List.find?_some hfind
    exact SortedMap.mem_entries_iff.1 (List.mem_of_find?_eq_some hfind)
  · intro hget
    have hmem := SortedMap.mem_entries_iff.2 hget
    obtain ⟨⟨k, v'⟩, hfind⟩ : ∃ e, m.entries.find? (·.1 == name) = some e :=
      Option.isSome_iff_exists.1 (List.find?_isSome.2 ⟨(name, v), hmem, by simp⟩)
    obtain rfl : k = name := by simpa using List.find?_some hfind
    have hfound := SortedMap.mem_entries_iff.1 (List.mem_of_find?_eq_some hfind)
    exact ⟨(k, v'), hfind, Option.some.inj (hfound.symm.trans hget)⟩

end Json

namespace Snapshot

def HavePositiveIds (models : SortedMap UInt64 Instance) : Prop :=
  ∀ id i, models.get? id = some i → 0 < id

/-- Instances under positive ids that are also their `id` fields. -/
def KnowIds (models : SortedMap UInt64 Instance) : Prop :=
  ∀ id i, models.get? id = some i → 0 < id ∧ i.get? "id" = some (.ofUInt64 id)

/-- A snapshot of which a document can hold every name and every id. -/
def IsKeyed (s : Snapshot) : Prop :=
  ∀ name models, s.collections.get? name = some models →
    isReserved name = false ∧ HavePositiveIds models

/-- A snapshot that a document can hold as a whole. -/
def IsRegular (s : Snapshot) : Prop :=
  ∀ name models, s.collections.get? name = some models → isReserved name = false ∧ KnowIds models

theorem KnowIds.havePositiveIds {models : SortedMap UInt64 Instance} (h : KnowIds models) :
    HavePositiveIds models := fun id i hi => (h id i hi).1

theorem IsRegular.isKeyed {s : Snapshot} (h : s.IsRegular) : s.IsKeyed := fun name models hmodels =>
  ⟨(h name models hmodels).1, (h name models hmodels).2.havePositiveIds⟩

theorem isReserved_migrationIndexKey : isReserved migrationIndexKey = true := by decide

theorem isReserved_of_isCollectionName {name : String} (h : isCollectionName name = true) :
    isReserved name = false := by
  rw [isCollectionName] at h
  rw [isReserved]
  cases hchars : name.toList with
  | nil => rfl
  | cons c cs =>
    rw [hchars, Bool.and_eq_true] at h
    refine beq_false_of_ne fun hhead => ?_
    obtain rfl : c = '_' := Option.some.inj hhead
    exact absurd h.1 (by decide)

theorem isRegular_empty (index : UInt64) : (empty index).IsRegular := nofun

theorem isRegular_insert {s : Snapshot} {f : Fqid} (hregular : s.IsRegular) (hf : f.IsReadable)
    (fields : Instance) : (s.insert f.collection f.id fields).IsRegular := by
  obtain ⟨hname, hpos⟩ := hf.name_and_id
  intro name models hmodels
  rw [insert, SortedMap.get?_update] at hmodels
  split at hmodels
  · rename_i heq
    obtain rfl := Option.some.inj hmodels
    refine ⟨heq ▸ isReserved_of_isCollectionName hname, fun id i hi => ?_⟩
    rw [SortedMap.get?_insert] at hi
    split at hi
    · rename_i hid
      obtain rfl := Option.some.inj hi
      exact ⟨hid ▸ hpos, by rw [hid, SortedMap.get?_insert_self]⟩
    · cases hformer : s.collections.get? f.collection with
      | none => simp [hformer] at hi
      | some former =>
        rw [hformer] at hi
        exact (hregular _ former hformer).2 id i hi
  · exact hregular name models hmodels

section Collections

variable {models : SortedMap UInt64 Instance} {name : String}

def memberOf (e : UInt64 × Instance) : String × Json := (toString e.1.toNat, .ofMap e.2)

theorem parseId?_memberOf {e : UInt64 × Instance} (hpos : 0 < e.1) :
    parseId? (memberOf e).1.toList = some e.1 := by
  simpa [memberOf] using parseId?_toDigits hpos

theorem modelOf?_memberOf {e : UInt64 × Instance} (hpos : 0 < e.1) :
    modelOf? (memberOf e) = some e := by
  rw [modelOf?, parseId?_memberOf hpos]
  simp [memberOf, Json.ofMap, Json.members?]

theorem modelProblems_memberOf {e : UInt64 × Instance} (hpos : 0 < e.1)
    (hid : e.2.get? "id" = some (.ofUInt64 e.1)) : modelProblems name (memberOf e) = [] := by
  rw [modelProblems, parseId?_memberOf hpos]
  simp [memberOf, Json.ofMap, Json.members?, hid]

theorem members?_collectionToJson (models : SortedMap UInt64 Instance) :
    (collectionToJson models).members? =
      some (SortedMap.ofList (models.entries.map memberOf)).entries := rfl

theorem mem_members {member : String × Json} (hids : HavePositiveIds models) :
    member ∈ (SortedMap.ofList (models.entries.map memberOf)).entries ↔
      ∃ e ∈ models.entries, memberOf e = member := by
  rw [SortedMap.mem_entries_ofList, List.mem_map]
  intro key v w hv hw
  obtain ⟨⟨id, i⟩, hmem, hv⟩ := List.mem_map.1 hv
  obtain ⟨⟨id', i'⟩, hmem', hw⟩ := List.mem_map.1 hw
  have hget := SortedMap.mem_entries_iff.1 hmem
  have hget' := SortedMap.mem_entries_iff.1 hmem'
  have hread := parseId?_memberOf (e := (id, i)) (hids id i hget)
  have hread' := parseId?_memberOf (e := (id', i')) (hids id' i' hget')
  rw [hv] at hread
  rw [hw] at hread'
  obtain rfl : id = id' := Option.some.inj (hread.symm.trans hread')
  obtain rfl : i = i' := Option.some.inj (hget.symm.trans hget')
  exact congrArg Prod.snd (hv.symm.trans hw)

theorem collectionOf?_image (hname : isReserved name = false) (hids : HavePositiveIds models) :
    collectionOf? (name, collectionToJson models) = some (name, models) := by
  rw [collectionOf?, hname, members?_collectionToJson]
  simp only [Bool.false_eq_true, if_false, Option.map_some, Option.some.injEq, Prod.mk.injEq,
    true_and]
  refine SortedMap.ofList_eq fun e => ?_
  simp only [List.mem_filterMap, mem_members hids]
  have hread : ∀ d ∈ models.entries, modelOf? (memberOf d) = some d := fun d hd =>
    modelOf?_memberOf (hids d.1 d.2 (SortedMap.mem_entries_iff.1 hd))
  constructor
  · rintro ⟨_, ⟨d, hd, rfl⟩, hread'⟩
    exact Option.some.inj ((hread d hd).symm.trans hread') ▸ hd
  · exact fun he => ⟨_, ⟨e, he, rfl⟩, hread e he⟩

theorem memberProblems_image (hname : isReserved name = false) (hids : KnowIds models) :
    memberProblems (name, collectionToJson models) = [] := by
  have hne : name ≠ migrationIndexKey := by
    rintro rfl
    cases hname.symm.trans isReserved_migrationIndexKey
  rw [memberProblems, if_neg hne, hname, members?_collectionToJson]
  simp only [Bool.false_eq_true, if_false]
  refine List.flatMap_eq_nil_iff.2 fun member hmember => ?_
  obtain ⟨d, hd, rfl⟩ := (mem_members hids.havePositiveIds).1 hmember
  obtain ⟨hpos, hid⟩ := hids d.1 d.2 (SortedMap.mem_entries_iff.1 hd)
  exact modelProblems_memberOf hpos hid

end Collections

section Image

variable {s : Snapshot}

def members (s : Snapshot) : SortedMap String Json :=
  SortedMap.ofList ((s.migrationIndex.map fun n => (migrationIndexKey, Json.ofUInt64 n)).toList ++
    s.collections.entries.map fun e => (e.1, collectionToJson e.2))

theorem toJson_eq (s : Snapshot) : s.toJson = .ofMap s.members := rfl

theorem mem_members_iff (hkeyed : s.IsKeyed) {member : String × Json} :
    member ∈ s.members.entries ↔
      (∃ n, s.migrationIndex = some n ∧ (migrationIndexKey, Json.ofUInt64 n) = member) ∨
        ∃ e ∈ s.collections.entries, (e.1, collectionToJson e.2) = member := by
  have hcollection : ∀ e ∈ s.collections.entries, isReserved e.1 = false := fun e he =>
    (hkeyed e.1 e.2 (SortedMap.mem_entries_iff.1 he)).1
  have hreserved := isReserved_migrationIndexKey
  rw [members, SortedMap.mem_entries_ofList]
  · simp
  · simp only [List.mem_append, Option.mem_toList, Option.map_eq_some_iff, List.mem_map,
      Prod.mk.injEq]
    rintro k v w (⟨n, hn, rfl, rfl⟩ | ⟨d, hd, rfl, rfl⟩) (⟨n', hn', hk, rfl⟩ | ⟨d', hd', hk, rfl⟩)
    · rw [Option.some.inj (hn.symm.trans hn')]
    · rw [← hk, hcollection d' hd'] at hreserved
      cases hreserved
    · rw [hk, hcollection d hd] at hreserved
      cases hreserved
    · obtain ⟨name, models⟩ := d
      obtain ⟨name', models'⟩ := d'
      obtain rfl : name' = name := hk
      rw [SortedMap.mem_entries_iff] at hd hd'
      rw [Option.some.inj (hd.symm.trans hd')]

theorem member?_migrationIndexKey (hkeyed : s.IsKeyed) :
    (s.toJson.member? migrationIndexKey).bind Json.id? = s.migrationIndex := by
  rw [toJson_eq, Json.member?_ofMap]
  apply Option.ext
  intro n
  simp only [Option.bind_eq_some_iff, ← SortedMap.mem_entries_iff, mem_members_iff hkeyed]
  constructor
  · rintro ⟨v, ⟨n', hindex, heq⟩ | ⟨e, he, heq⟩, hread⟩
    · cases heq
      rw [Json.id?_ofUInt64] at hread
      rw [hindex, hread]
    · have hname := (hkeyed e.1 e.2 (SortedMap.mem_entries_iff.1 he)).1
      rw [show e.1 = migrationIndexKey from congrArg Prod.fst heq,
        isReserved_migrationIndexKey] at hname
      cases hname
  · intro hindex
    exact ⟨_, .inl ⟨n, hindex, rfl⟩, Json.id?_ofUInt64 n⟩

theorem parse_toJson_eq (hkeyed : s.IsKeyed) : parse s.toJson =
    (⟨s.migrationIndex, SortedMap.ofList (s.members.entries.filterMap collectionOf?)⟩,
      s.members.entries.flatMap memberProblems) := by
  rw [← member?_migrationIndexKey hkeyed]
  rfl

/-- The image of a snapshot with names and ids of its own is read back as this snapshot. -/
theorem fst_parse_toJson (hkeyed : s.IsKeyed) : (parse s.toJson).1 = s := by
  have hentry : ∀ e ∈ s.collections.entries, isReserved e.1 = false ∧ HavePositiveIds e.2 :=
    fun e he => hkeyed e.1 e.2 (SortedMap.mem_entries_iff.1 he)
  rw [parse_toJson_eq hkeyed]
  refine congrArg (Snapshot.mk s.migrationIndex) (SortedMap.ofList_eq fun e => ?_)
  simp only [List.mem_filterMap, mem_members_iff hkeyed]
  constructor
  · rintro ⟨_, ⟨n, -, rfl⟩ | ⟨d, hd, rfl⟩, hread⟩
    · simp [collectionOf?, isReserved_migrationIndexKey] at hread
    · rw [collectionOf?_image (hentry d hd).1 (hentry d hd).2] at hread
      exact Option.some.inj hread ▸ hd
  · exact fun he => ⟨_, .inr ⟨e, he, rfl⟩, collectionOf?_image (hentry e he).1 (hentry e he).2⟩

/-- The image of a regular snapshot is read back as this snapshot. -/
theorem parse_toJson (hregular : s.IsRegular) : parse s.toJson = (s, []) := by
  refine Prod.ext (fst_parse_toJson hregular.isKeyed) ?_
  rw [parse_toJson_eq hregular.isKeyed]
  refine List.flatMap_eq_nil_iff.2 fun member hmember => ?_
  rcases (mem_members_iff hregular.isKeyed).1 hmember with ⟨n, -, rfl⟩ | ⟨e, he, rfl⟩
  · simp [memberProblems]
  · obtain ⟨hname, hids⟩ := hregular e.1 e.2 (SortedMap.mem_entries_iff.1 he)
    exact memberProblems_image hname hids

theorem ofJson_toJson (hregular : s.IsRegular) : ofJson s.toJson = .ok s := by
  rw [ofJson, parse_toJson hregular]
  rfl

end Image

end Snapshot

end MeetingLedger
