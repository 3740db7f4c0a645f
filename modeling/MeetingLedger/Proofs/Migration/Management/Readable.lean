import MeetingLedger.Proofs.Ledger.Agreement
import MeetingLedger.Proofs.Migration.Management.Levels

/-!
# Events that the step can read

The step makes sense of every level in an event as soon as the name of the field spells the id of a
committee, in canonical decimal notation or not, and its value is a level. What it writes instead
of the fields of such an event agrees with them, apart from the fields that it takes away or puts in.
-/

namespace MeetingLedger.Migration.CommitteeManagement

/-- An event of a log from before the step whose levels can be read. Unlike in `IsLegacy`, the id of
a committee may have leading zeros, and levels may be changed as if they were lists. -/
structure IsReadable (e : Event) : Prop where
  managed_unknown : managedField ∉ fieldNames e
  managers_unknown : managersField ∉ fieldNames e
  level : ∀ fields name v digits, e.fqid.collection = "user" → e.fields? = some fields →
    fields.get? name = some v → committeeDigits? name = some digits →
      (committeeId? digits).isSome ∧ (v = .null ∨ v = .string canManage)

theorem IsLegacy.isReadable {e : Event} (h : IsLegacy e) : IsReadable e := by
  refine ⟨h.managed_unknown, h.managers_unknown, ?_⟩
  intro fields name v digits huser hfields hget hdigits
  obtain ⟨⟨committee, rfl⟩, hv⟩ := h.level fields name v huser hfields hget (by simp [hdigits])
  rw [committeeDigits?_levelField, Option.some.injEq] at hdigits
  subst hdigits
  exact ⟨by rw [committeeId?_toDigits]; rfl, hv⟩

def levelOf? (name : String) (v : Json) : Option (UInt64 × Bool) :=
  ((committeeDigits? name).bind committeeId?).map (·, grants v)

def levelsOf (fields : Instance) : List (UInt64 × Bool) :=
  fields.entries.filterMap fun e => levelOf? e.1 e.2

def levelIn (committee : UInt64) (fields : Instance) (otherwise : Bool) : Bool :=
  (levelsOf fields).foldl (fun b l => if l.1 = committee then l.2 else b) otherwise

def rewritten (collection name : String) : Bool :=
  if collection = "user" then isFormer name || name == managedField
  else collection == "committee" && name == managersField

theorem isFormer_eq_false_of_rewritten {name : String} (h : rewritten "user" name = false) :
    isFormer name = false ∧ name ≠ managedField := by
  simpa [rewritten] using h

theorem agreeOff_kept (fields : Instance) :
    Instance.AgreeOff (rewritten "user") (fields.filter fun name _ => !isFormer name) fields := by
  intro name hname
  rw [SortedMap.get?_filter]
  cases fields.get? name <;> simp [(isFormer_eq_false_of_rewritten hname).1]

theorem agreeOff_writeManaged (isCreation : Bool) (managed : IdSet) (fields : Instance) :
    (writeManaged isCreation managed fields).AgreeOff (rewritten "user") fields := by
  intro name hname
  have hne := (isFormer_eq_false_of_rewritten hname).2
  rw [writeManaged]
  split
  · split
    · rw [SortedMap.get?_erase, if_neg hne]
    · exact SortedMap.get?_insert_of_ne _ hne _
  · exact SortedMap.get?_insert_of_ne _ hne _

section Fields

variable {e : Event} {user : Fqid} {fields : Instance} {isCreation : Bool} {h : History} {s : State}

theorem IsReadable.mapM_readLevel (hreadable : IsReadable e) (huser : e.fqid.collection = "user")
    (hfields : e.fields? = some fields) (user : Fqid) :
    ∃ found, (fields.entries.mapM fun d => readLevel user d.1 d.2) = .ok found ∧
      found.filterMap id = levelsOf fields := by
  have hread : ∀ d ∈ fields.entries, readLevel user d.1 d.2 = .ok (levelOf? d.1 d.2) := by
    intro d hd
    rw [readLevel, levelOf?]
    cases hdigits : committeeDigits? d.1 with
    | none => rfl
    | some digits =>
      obtain ⟨hid, hv⟩ := hreadable.level fields d.1 d.2 digits huser hfields
        (SortedMap.mem_entries_iff.1 hd) hdigits
      obtain ⟨committee, hcommittee⟩ := Option.isSome_iff_exists.1 hid
      rcases hv with hv | hv <;> rw [hv] <;> simp [hcommittee, level?, grants, Json.string?]
  have hall : ∀ es : List (String × Json), (∀ d ∈ es, readLevel user d.1 d.2 = .ok
      (levelOf? d.1 d.2)) → (es.mapM fun d => readLevel user d.1 d.2) =
        .ok (es.map fun d => levelOf? d.1 d.2) := by
    intro es hes
    induction es with
    | nil => rfl
    | cons d es ih =>
      exact mapM_cons_eq_ok_iff.2 ⟨_, _, hes d List.mem_cons_self,
        ih fun d' hd' => hes d' (List.mem_cons_of_mem _ hd'), rfl⟩
  refine ⟨_, hall _ hread, ?_⟩
  rw [List.filterMap_map]
  rfl

theorem IsReadable.isEmpty_levelsOf (hreadable : IsReadable e)
    (huser : e.fqid.collection = "user") (hfields : e.fields? = some fields) :
    (levelsOf fields).isEmpty = !hasLevels fields := by
  have hlevel : ∀ d ∈ fields.entries, (levelOf? d.1 d.2).isSome = (committeeDigits? d.1).isSome := by
    intro d hd
    rw [levelOf?, Option.isSome_map]
    cases hdigits : committeeDigits? d.1 with
    | none => rfl
    | some digits => exact (hreadable.level fields d.1 d.2 digits huser hfields
        (SortedMap.mem_entries_iff.1 hd) hdigits).1
  rw [Bool.eq_iff_iff, List.isEmpty_iff, levelsOf, List.filterMap_eq_nil_iff, Bool.not_eq_true',
    hasLevels, SortedMap.keys, List.any_map, List.any_eq_false]
  refine forall₂_congr fun d hd => ?_
  rw [Function.comp_apply, ← hlevel d hd, Option.not_isSome_iff_eq_none]

theorem IsReadable.migrateFields_of_isEmpty (hreadable : IsReadable e)
    (huser : e.fqid.collection = "user") (hfields : e.fields? = some fields)
    (hempty : (levelsOf fields).isEmpty = true) :
    ∃ r, migrateFields user fields isCreation h s = .done r s ∧
      ∀ name, isFormer name = false → (r.getD fields).get? name = fields.get? name := by
  obtain ⟨found, hfound, hlevels⟩ := hreadable.mapM_readLevel huser hfields user
  simp only [migrateFields, hfound, hlevels, hempty, if_true]
  by_cases hformer : fields.keys.any isFormer = true
  · refine ⟨some (fields.filter fun name _ => !isFormer name), by simp [hformer], ?_⟩
    intro name hname
    rw [Option.getD_some, SortedMap.get?_filter]
    cases fields.get? name <;> simp [hname]
  · exact ⟨none, by simp [hformer], fun name _ => rfl⟩

/-- Fields that write levels: the levels decide about their committees, the committees of before
about the others, and every difference is taken down. -/
theorem IsReadable.migrateFields_of_levels (hreadable : IsReadable e)
    (huser : e.fqid.collection = "user") (hfields : e.fields? = some fields)
    (hsome : (levelsOf fields).isEmpty = false) :
    ∃ managed s', migrateFields user fields isCreation h s =
        .done (some (writeManaged isCreation managed (fields.filter fun name _ => !isFormer name)))
          s' ∧
      s'.managed = s.managed.insert user.id managed ∧
      (∀ c, managed.contains c =
        levelIn c fields ((before user fields isCreation h s).contains c)) ∧
      ∀ u c, s'.flag u c =
        if u = user.id ∧ (before user fields isCreation h s).contains c ≠ managed.contains c then
          some (managed.contains c)
        else s.flag u c := by
  obtain ⟨found, hfound, hlevels⟩ := hreadable.mapM_readLevel huser hfields user
  have hformer : fields.keys.any isFormer = true := by
    obtain ⟨l, hl⟩ := List.exists_mem_of_ne_nil (levelsOf fields) (by
      rintro heq
      rw [heq] at hsome
      cases hsome)
    obtain ⟨d, hd, hlevel⟩ := List.mem_filterMap.1 hl
    refine List.any_eq_true.2 ⟨d.1, List.mem_map_of_mem hd, ?_⟩
    cases hdigits : committeeDigits? d.1 with
    | none => simp [levelOf?, hdigits] at hlevel
    | some digits => simp [isFormer, hdigits]
  let old := before user fields isCreation h s
  let managed := applyLevels old (levelsOf fields)
  refine ⟨managed, { s.noteDifference user.id old managed with
    managed := s.managed.insert user.id managed }, ?_, rfl, contains_applyLevels old _,
    State.flag_noteDifference s user.id old managed⟩
  simp only [migrateFields, hfound, hlevels, hformer, hsome, Bool.not_true, Bool.false_eq_true,
    if_false, State.managed_setManagers]
  rfl

/-- What the step writes instead of some fields agrees with them off the rewritten fields. -/
theorem IsReadable.exists_migrateFields (hreadable : IsReadable e)
    (huser : e.fqid.collection = "user") (hfields : e.fields? = some fields) :
    ∃ r s', migrateFields user fields isCreation h s = .done r s' ∧
      (r.getD fields).AgreeOff (rewritten "user") fields := by
  cases hempty : (levelsOf fields).isEmpty with
  | true =>
    obtain ⟨r, hdone, hsame⟩ := hreadable.migrateFields_of_isEmpty huser hfields hempty
    exact ⟨r, s, hdone, fun name hname => hsame name (isFormer_eq_false_of_rewritten hname).1⟩
  | false =>
    obtain ⟨managed, s', hdone, -⟩ := hreadable.migrateFields_of_levels huser hfields hempty
    exact ⟨_, s', hdone, (agreeOff_writeManaged _ _ _).trans (agreeOff_kept fields)⟩

end Fields

end MeetingLedger.Migration.CommitteeManagement
