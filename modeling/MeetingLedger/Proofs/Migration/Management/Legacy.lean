import MeetingLedger.Migration.CommitteeManagement
import MeetingLedger.Proofs.Fqid
import MeetingLedger.Proofs.Ledger.ModelView

/-!
# Logs from before the step

Logs from before the step to committee management, and what they say about a user: the committees
for which the user holds the level of management, each in a field of its own. The digits in the name
of such a field are read back as the id that the name was made from.
-/

namespace MeetingLedger.Migration.CommitteeManagement

/-- The former field for the level that a user holds in one committee. -/
def levelField (committee : UInt64) : String :=
  "committee_$" ++ toString committee.toNat ++ "_management_level"

def userId (user : UInt64) : Fqid := ⟨"user", user⟩

def committeeFqid (committee : UInt64) : Fqid := ⟨"committee", committee⟩

def grants (v : Json) : Bool := v.string? == some canManage

/-- Whether a user, deleted or not, holds the level of management for a committee. -/
def holdsLevel (user : Option Model) (committee : UInt64) : Bool :=
  user.any fun m => (m.fields.get? (levelField committee)).any grants

/-- Whether a user who is not deleted holds the level of management for a committee. -/
def manages (user : Option Model) (committee : UInt64) : Bool :=
  user.any (!·.deleted) && holdsLevel user committee

/-- Whether a user, deleted or not, lists a committee as managed. -/
def listsCommittee (user : Option Model) (committee : UInt64) : Bool :=
  user.any fun m => (m.fields.idsAt managedField).contains committee

def listsManager (committee : Option Model) (user : UInt64) : Bool :=
  committee.any fun m => (m.fields.idsAt managersField).contains user

def fieldNames : Event → List String
  | .create _ fields | .update _ fields => fields.keys
  | .listUpdate _ add remove => add.keys ++ remove.keys
  | .delete _ | .restore _ => []

/-- An event of a log from before the step. It does not know the two lists that the step
introduces, users hold the level of management or none, for committees with an id in canonical
decimal notation, and levels are not changed as if they were lists. -/
structure IsLegacy (e : Event) : Prop where
  managed_unknown : managedField ∉ fieldNames e
  managers_unknown : managersField ∉ fieldNames e
  level : ∀ fields name v, e.fqid.collection = "user" → e.fields? = some fields →
    fields.get? name = some v → (committeeDigits? name).isSome →
      (∃ committee, name = levelField committee) ∧ (v = .null ∨ v = .string canManage)
  lists : ∀ add remove name, e.fqid.collection = "user" → e = .listUpdate e.fqid add remove →
    name ∈ fieldNames e → committeeDigits? name = none

theorem get?_eq_none_of_not_mem_fieldNames {e : Event} {fields : Instance} {name : String}
    (hname : name ∉ fieldNames e) (hfields : e.fields? = some fields) : fields.get? name = none := by
  refine SortedMap.get?_eq_none_iff.2 fun hmem => hname ?_
  cases e <;> cases hfields <;> exact hmem

/-- An event leaves a field alone that it does not name. -/
theorem get?_of_next? {e : Event} {m : Option Model} {m' : Model} {name : String}
    (hname : name ∉ fieldNames e) (hid : name ≠ "id") (hnext : e.next? m = some m') :
    m'.fields.get? name = m.bind (·.fields.get? name) := by
  cases e with
  | create f fields =>
    rcases m with _ | m <;> cases hnext
    rw [History.created,
      Instance.get?_merge_of_none (get?_eq_none_of_not_mem_fieldNames hname rfl)]
    exact SortedMap.get?_insert_of_ne _ hid _
  | update f fields =>
    rcases m with _ | ⟨i, _ | _⟩ <;> cases hnext
    exact Instance.get?_merge_of_none (get?_eq_none_of_not_mem_fieldNames hname rfl)
  | listUpdate f add remove =>
    have hadd : add.get? name = none :=
      SortedMap.get?_eq_none_iff.2 fun hmem => hname (List.mem_append_left _ hmem)
    have hremove : remove.get? name = none :=
      SortedMap.get?_eq_none_iff.2 fun hmem => hname (List.mem_append_right _ hmem)
    rcases m with _ | ⟨i, _ | _⟩ <;> try cases hnext
    rw [Event.next?] at hnext
    split at hnext <;> cases hnext
    exact Instance.get?_changeLists hadd hremove
  | delete f | restore f =>
    rcases m with _ | ⟨i, _ | _⟩ <;> cases hnext
    rfl

theorem get?_modelAfter? {f : Fqid} {es : List Event} {m m' : Option Model} {name : String}
    (hname : ∀ e ∈ es, e.fqid = f → name ∉ fieldNames e) (hid : name ≠ "id")
    (hm : History.modelAfter? f es m = some m') :
    m'.bind (·.fields.get? name) = m.bind (·.fields.get? name) :=
  History.modelAfter?_invariant (P := fun m' => m'.bind (·.fields.get? name) =
    m.bind (·.fields.get? name))
    (fun e he heq _ _ hsame hnext => (get?_of_next? (hname e he heq) hid hnext).trans hsame) rfl hm

def writesLevel (user committee : UInt64) (e : Event) : Bool :=
  e.fqid == userId user && e.fields?.any (·.contains (levelField committee))

def hasLevels (fields : Instance) : Bool :=
  fields.keys.any fun name => (committeeDigits? name).isSome

def writesSomeLevel (user : UInt64) (e : Event) : Bool :=
  e.fqid == userId user && e.fields?.any hasLevels

section Names

theorem toList_levelField (committee : UInt64) : (levelField committee).toList =
    "committee_$".toList ++ (Nat.toDigits 10 committee.toNat ++ "_management_level".toList) := by
  rw [levelField, String.toList_append, String.toList_append, List.append_assoc]
  congr 2
  exact (congrArg String.toList Nat.toString_eq_ofList_toDigits).trans String.toList_ofList

theorem committeeDigits?_levelField (committee : UInt64) :
    committeeDigits? (levelField committee) = some (Nat.toDigits 10 committee.toNat) := by
  have hdigit : ∀ c ∈ Nat.toDigits 10 committee.toNat, isDecimalDigit c = true := fun c hc =>
    isDecimalDigit_of_isAsciiDigit (isAsciiDigit_of_mem_toDigits hc)
  have hstop : "_management_level".toList.head?.all (!isDecimalDigit ·) = true := by decide +kernel
  have hne : Nat.toDigits 10 committee.toNat ≠ [] := Nat.toDigits_ne_nil
  rw [committeeDigits?, toList_levelField, dropLiteral?_append]
  generalize "_management_level".toList = rest at hstop ⊢
  generalize Nat.toDigits 10 committee.toNat = digits at hdigit hne ⊢
  have hdigits := takeWhile_append_of_head? hdigit hstop
  have hrest := dropWhile_append_of_head? hdigit hstop
  simp only [Option.bind_eq_bind, Option.bind_some, hdigits, hrest]
  simp [hne]

theorem committeeId?_toDigits (committee : UInt64) :
    committeeId? (Nat.toDigits 10 committee.toNat) = some committee := by
  have hall : (Nat.toDigits 10 committee.toNat).all isAsciiDigit = true :=
    List.all_eq_true.2 fun c hc => isAsciiDigit_of_mem_toDigits hc
  simp [committeeId?, hall, Nat.ofDigitChars_ten_toDigits, committee.toNat_lt_size]

theorem levelField_injective {a b : UInt64} (h : levelField a = levelField b) : a = b := by
  have hdigits := committeeDigits?_levelField a
  rw [h, committeeDigits?_levelField b] at hdigits
  have hid := committeeId?_toDigits a
  rw [← Option.some.inj hdigits, committeeId?_toDigits b] at hid
  exact (Option.some.inj hid).symm

@[simp] theorem isFormer_levelField (committee : UInt64) : isFormer (levelField committee) = true := by
  simp [isFormer, committeeDigits?_levelField]

theorem hasLevels_of_contains {fields : Instance} {committee : UInt64}
    (h : fields.contains (levelField committee) = true) : hasLevels fields = true :=
  List.any_eq_true.2 ⟨levelField committee, SortedMap.mem_keys_iff.2 h, by
    rw [committeeDigits?_levelField]; rfl⟩

theorem get?_levelField_of_not_hasLevels {fields : Instance} (h : hasLevels fields = false)
    (committee : UInt64) : fields.get? (levelField committee) = none := by
  rw [← Option.not_isSome_iff_eq_none]
  intro hcontains
  rw [hasLevels_of_contains hcontains] at h
  cases h

theorem isFormer_managedField : isFormer managedField = false := by decide +kernel

theorem ne_levelField_of_isFormer_eq_false {name : String} (h : isFormer name = false)
    (committee : UInt64) : name ≠ levelField committee := by
  rintro rfl
  simp at h

theorem levelField_ne_id (committee : UInt64) : levelField committee ≠ "id" :=
  Ne.symm (ne_levelField_of_isFormer_eq_false (by decide +kernel) committee)

end Names

def promotion (committee : UInt64) : Instance :=
  (∅ : Instance).insert (levelField committee) (.string canManage)

def demotion (committee : UInt64) : Instance :=
  (∅ : Instance).insert (levelField committee) .null

theorem isLegacy_of_level {e : Event}
    (hfields : ∀ fields, e.fields? = some fields → fields = ∅ ∨
      ∃ c v, (v = .null ∨ v = .string canManage) ∧ (∅ : Instance).insert (levelField c) v = fields)
    (hlists : ∀ f add remove, e ≠ .listUpdate f add remove) : IsLegacy e := by
  have hname : ∀ name ∈ fieldNames e, ∃ c, name = levelField c := by
    have hkeys {fields : Instance} (h : fields = ∅ ∨ ∃ c v, (v = .null ∨ v = .string canManage) ∧
        (∅ : Instance).insert (levelField c) v = fields) :
        ∀ name ∈ fields.keys, ∃ c, name = levelField c := by
      rintro name hmem
      rcases h with rfl | ⟨c, v, -, rfl⟩
      · cases hmem
      · exact ⟨c, List.mem_singleton.1 hmem⟩
    cases e with
    | create f fields | update f fields => exact hkeys (hfields fields rfl)
    | listUpdate f add remove => exact absurd rfl (hlists f add remove)
    | _ => exact fun _ hmem => nomatch hmem
  have hunknown {name : String} (hformer : isFormer name = false) : name ∉ fieldNames e := by
    intro hmem
    obtain ⟨c, rfl⟩ := hname name hmem
    simp at hformer
  refine ⟨hunknown isFormer_managedField, hunknown (by decide +kernel), ?_, ?_⟩
  · intro fields name v _ hsome hget _
    rcases hfields fields hsome with rfl | ⟨c, v', hv', rfl⟩
    · cases hget
    · rw [SortedMap.get?_insert] at hget
      split at hget
      · rename_i hc
        exact ⟨⟨c, hc⟩, Option.some.inj hget ▸ hv'⟩
      · cases hget
  · intro add remove name _ heq
    exact absurd heq (hlists _ add remove)

theorem isLegacy_of_promotion {e : Event}
    (hfields : ∀ fields, e.fields? = some fields → fields = ∅ ∨ ∃ c, promotion c = fields)
    (hlists : ∀ f add remove, e ≠ .listUpdate f add remove) : IsLegacy e := by
  refine isLegacy_of_level (fun fields hsome => ?_) hlists
  rcases hfields fields hsome with hempty | ⟨c, hc⟩
  · exact .inl hempty
  · exact .inr ⟨c, _, .inr rfl, hc⟩

end MeetingLedger.Migration.CommitteeManagement
