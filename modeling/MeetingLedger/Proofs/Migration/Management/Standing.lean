import MeetingLedger.Proofs.Migration.Management.Tracking

/-!
# A user and a committee within a position

How one user stands with one committee while the step works on a position of a log from before it:
what the step keeps track of about the two, next to the level that the user holds.
-/

namespace MeetingLedger.Migration.CommitteeManagement

/-- A user and a committee, in the middle of a position. -/
structure Standing where
  /-- Whether the step remembers the committees of the user. -/
  remembered : Bool
  /-- What the step took down about the two, if anything. -/
  flag : Option Bool
  /-- Whether the user lists the committee after the migration. -/
  lists : Bool
  /-- Whether the user holds the level for the committee before the migration. -/
  holds : Bool
  /-- Whether the user exists and is not deleted. -/
  live : Bool

namespace Standing

variable (wasDeleted : Bool) (user committee : UInt64)

/-- Whether the step finds the committee among those that the user manages. It does not see the
list of a user who was deleted at the start of the position unless it remembers it. -/
def found (st : Standing) : Bool := st.lists && (st.remembered || !wasDeleted)

def level (fields : Instance) (otherwise : Bool) : Bool :=
  (fields.get? (levelField committee)).elim otherwise grants

def write (fields : Instance) (st : Standing) : Standing :=
  if hasLevels fields then
    let lists := level committee fields (st.found wasDeleted)
    { remembered := true
      flag := if st.found wasDeleted = lists then st.flag else some lists
      lists
      holds := level committee fields st.holds
      live := true }
  else { st with live := true }

def next (st : Standing) : Event → Standing
  | .create _ fields | .update _ fields => st.write wasDeleted committee fields
  | .listUpdate .. => st
  | .delete _ =>
    { st with live := false, flag := if st.found wasDeleted then some false else st.flag }
  | .restore _ => { st with live := true, flag := if st.lists then some true else st.flag }

def after : List Event → Standing → Standing
  | [], st => st
  | e :: es, st =>
    after es (if e.fqid = userId user then st.next wasDeleted committee e else st)

section After

variable (wasDeleted : Bool) {user committee : UInt64} {e : Event}

theorem next_of_writesLevel (hwrites : writesLevel user committee e = true) (st : Standing) :
    (st.next wasDeleted committee e).remembered = true ∧
      (st.next wasDeleted committee e).lists = (st.next wasDeleted committee e).holds := by
  obtain ⟨-, hfields⟩ := Bool.and_eq_true_iff.1 hwrites
  have hwrite {fields : Instance} (hcontains : fields.contains (levelField committee) = true) :
      (st.write wasDeleted committee fields).remembered = true ∧
        (st.write wasDeleted committee fields).lists =
          (st.write wasDeleted committee fields).holds := by
    obtain ⟨v, hv⟩ := Option.isSome_iff_exists.1 hcontains
    simp [write, hasLevels_of_contains hcontains, level, hv]
  cases e with
  | create f fields | update f fields => exact hwrite hfields
  | _ => cases hfields

theorem next_of_not_writesLevel (huser : e.fqid = userId user)
    (hwrites : writesLevel user committee e = false) (st : Standing) :
    (st.next wasDeleted committee e).holds = st.holds ∧
      (st.next wasDeleted committee e).remembered =
        (st.remembered || writesSomeLevel user e) ∧
      (st.next wasDeleted committee e).lists =
        if writesSomeLevel user e then st.found wasDeleted else st.lists := by
  have hwrite {fields : Instance} (hcontains : fields.contains (levelField committee) = false) :
      (st.write wasDeleted committee fields).holds = st.holds ∧
        (st.write wasDeleted committee fields).remembered =
          (st.remembered || hasLevels fields) ∧
        (st.write wasDeleted committee fields).lists =
          if hasLevels fields then st.found wasDeleted else st.lists := by
    have hv : fields.get? (levelField committee) = none := by
      simpa [SortedMap.contains] using hcontains
    cases hlevels : hasLevels fields <;> simp [write, hlevels, level, hv]
  cases e with
  | create f fields | update f fields =>
    simp only [writesSomeLevel, writesLevel, huser, beq_self_eq_true, Bool.true_and,
      Event.fields?, Option.any_some] at hwrites ⊢
    exact hwrite hwrites
  | _ => simp [next, writesSomeLevel, Event.fields?]

/-- Without a new level for the committee the old one stays. -/
theorem holds_after {es : List Event} (hwrites : es.any (writesLevel user committee) = false)
    (st : Standing) : (after wasDeleted user committee es st).holds = st.holds := by
  induction es generalizing st with
  | nil => rfl
  | cons e es ih =>
    rw [List.any_cons, Bool.or_eq_false_iff] at hwrites
    rw [after, ih hwrites.2]
    split
    · rename_i huser
      exact (next_of_not_writesLevel wasDeleted huser hwrites.1 st).1
    · rfl

/-- Once events write the level for the committee, the user lists it exactly if the user holds the
level. Until then the user keeps it, unless the step does not find it when it writes a level. -/
theorem lists_after (es : List Event) (st : Standing) :
    (after wasDeleted user committee es st).lists =
      if es.any (writesLevel user committee) then (after wasDeleted user committee es st).holds
      else st.lists && !(wasDeleted && !st.remembered && es.any (writesSomeLevel user)) := by
  induction es generalizing st with
  | nil => simp [after]
  | cons e es ih =>
    rw [after, ih, List.any_cons, List.any_cons]
    by_cases hrest : es.any (writesLevel user committee) = true
    · simp [hrest]
    · rw [Bool.not_eq_true] at hrest
      by_cases huser : e.fqid = userId user
      · by_cases hwrites : writesLevel user committee e = true
        · obtain ⟨hremembered, hlists⟩ := next_of_writesLevel wasDeleted hwrites st
          simp [hrest, huser, hwrites, hremembered, hlists, holds_after wasDeleted hrest]
        · rw [Bool.not_eq_true] at hwrites
          obtain ⟨-, hremembered, hlists⟩ :=
            next_of_not_writesLevel wasDeleted huser hwrites st
          cases hsome : writesSomeLevel user e <;>
            simp [hrest, huser, hwrites, hremembered, hlists, hsome, found, Bool.or_comm]
      · have hother : writesLevel user committee e = false := by simp [writesLevel, huser]
        have hothers : writesSomeLevel user e = false := by simp [writesSomeLevel, huser]
        simp [hrest, huser, hother, hothers]

end After

end Standing

def standing (s : State) (migrated legacy : Option Model) (user committee : UInt64) : Standing where
  remembered := (s.managed.get? user).isSome
  flag := s.flag user committee
  lists := listsCommittee migrated committee
  holds := holdsLevel legacy committee
  live := legacy.any (!·.deleted)

theorem holds_next? {e : Event} {m : Option Model} {m' : Model} (hlegacy : IsLegacy e)
    (huser : e.fqid.collection = "user") (hnext : e.next? m = some m') (committee : UInt64) :
    holdsLevel (some m') committee =
      (e.fields?.bind (·.get? (levelField committee))).elim (holdsLevel m committee) grants := by
  have hid := levelField_ne_id committee
  have hnull : grants .null = false := by decide +kernel
  have hmerge (i fields : Instance) : ((i.merge fields).get? (levelField committee)).any grants =
      (fields.get? (levelField committee)).elim ((i.get? (levelField committee)).any grants)
        grants := by
    rw [Instance.get?_merge _ _ hid]
    rcases fields.get? (levelField committee) with _ | v
    · rfl
    · cases v <;> simp [Json.isNull, hnull]
  cases e with
  | create f fields =>
    rcases m with _ | m
    · cases hnext
      simpa [holdsLevel, Event.fields?, History.created, SortedMap.get?_insert, hid] using
        hmerge ((∅ : Instance).insert "id" (.ofUInt64 f.id)) fields
    · cases hnext
  | update f fields =>
    rcases m with _ | ⟨i, _ | _⟩ <;> cases hnext
    exact hmerge i fields
  | listUpdate f add remove =>
    rcases m with _ | ⟨i, _ | _⟩
    · cases hnext
    · have habsent : ∀ changes : ListChanges, (∀ name ∈ changes.keys, committeeDigits? name = none) →
          changes.get? (levelField committee) = none := by
        intro changes hnone
        refine SortedMap.get?_eq_none_iff.2 fun hmem => ?_
        have hdigits := hnone _ hmem
        rw [committeeDigits?_levelField] at hdigits
        cases hdigits
      have hlists := fun name => hlegacy.lists add remove name huser rfl
      rw [Event.next?] at hnext
      split at hnext
      · cases hnext
        simp only [holdsLevel, Event.fields?, Option.any_some, Option.bind_none, Option.elim_none]
        rw [Instance.get?_changeLists
          (habsent add fun name hmem => hlists name (List.mem_append_left _ hmem))
          (habsent remove fun name hmem => hlists name (List.mem_append_right _ hmem))]
      · cases hnext
    · cases hnext
  | delete f =>
    rcases m with _ | ⟨i, _ | _⟩ <;> cases hnext
    rfl
  | restore f =>
    rcases m with _ | ⟨i, _ | _⟩ <;> cases hnext
    rfl

theorem IsLegacy.levelIn_eq {e : Event} (hlegacy : IsLegacy e) (huser : e.fqid.collection = "user")
    {fields : Instance} (hfields : e.fields? = some fields) (committee : UInt64) (b : Bool) :
    levelIn committee fields b = Standing.level committee fields b := by
  have hname : ∀ d ∈ fields.entries, (committeeDigits? d.1).isSome → ∃ c, d.1 = levelField c :=
    fun d hd hdigits =>
      (hlegacy.level fields d.1 d.2 huser hfields (SortedMap.mem_entries_iff.1 hd) hdigits).1
  have hread : ∀ (es : List (String × Json)) (b : Bool),
      (∀ d ∈ es, (committeeDigits? d.1).isSome → ∃ c, d.1 = levelField c) →
      (es.filterMap fun d => levelOf? d.1 d.2).foldl
          (fun b l => if l.1 = committee then l.2 else b) b =
        es.foldl (fun b d => if d.1 = levelField committee then grants d.2 else b) b := by
    intro es
    induction es with
    | nil => exact fun b _ => rfl
    | cons d es ih =>
      intro b hes
      have ih := fun b => ih b fun d' hd' => hes d' (List.mem_cons_of_mem _ hd')
      rw [List.filterMap_cons, List.foldl_cons]
      cases hdigits : committeeDigits? d.1 with
      | none =>
        have hne : d.1 ≠ levelField committee := by
          intro heq
          rw [heq, committeeDigits?_levelField] at hdigits
          cases hdigits
        simpa [levelOf?, hdigits, hne] using ih b
      | some digits =>
        obtain ⟨c, hc⟩ := hes d List.mem_cons_self (by simp [hdigits])
        rw [hc, committeeDigits?_levelField, Option.some.injEq] at hdigits
        have hkey : c = committee ↔ levelField c = levelField committee :=
          ⟨congrArg levelField, levelField_injective⟩
        simpa [levelOf?, hc, committeeDigits?_levelField, committeeId?_toDigits, hkey] using ih _
  exact (hread fields.entries b hname).trans
    (SortedMap.foldl_entries_at (levelField committee) (fun v _ => grants v) fields b)

def Tracking.standing (t : Tracking) (legacy : Option Model) (committee : UInt64) : Standing where
  remembered := t.remembered
  flag := t.flag
  lists := t.lists
  holds := holdsLevel legacy committee
  live := legacy.any (!·.deleted)

section Legacy

variable {user committee : UInt64} {e : Event}

theorem Tracking.standing_write {l : Option Model} {l' : Model} {fields : Instance}
    (hlegacy : IsLegacy e) (huser : e.fqid.collection = "user") (hfields : e.fields? = some fields)
    (hl' : l'.deleted = false)
    (hholds : holdsLevel (some l') committee =
      Standing.level committee fields (holdsLevel l committee)) (wasDeleted : Bool) (t : Tracking) :
    (t.standing l committee).write wasDeleted committee fields =
      (t.write wasDeleted committee fields).standing (some l') committee := by
  rw [Standing.write, Tracking.write, hlegacy.isReadable.isEmpty_levelsOf huser hfields]
  cases hlevels : hasLevels fields with
  | false =>
    have hsame : holdsLevel (some l') committee = holdsLevel l committee := by
      rw [hholds, Standing.level, get?_levelField_of_not_hasLevels hlevels]
      rfl
    simp [Tracking.standing, hsame, hl']
  | true =>
    simp only [hlegacy.levelIn_eq huser hfields]
    simp [Tracking.standing, hholds, hl', Standing.found, Tracking.found]
    congr

/-- An event of the user from before the step. -/
theorem Tracking.standing_next {l : Option Model} {l' : Model} (hlegacy : IsLegacy e)
    (huser : e.fqid.collection = "user") (hnext : e.next? l = some l') (wasDeleted : Bool)
    (t : Tracking) :
    (t.standing l committee).next wasDeleted committee e =
      (t.next wasDeleted committee e).standing (some l') committee := by
  have hholds := holds_next? hlegacy huser hnext committee
  have hlive := Event.deleted_of_next? hnext
  cases e with
  | create f fields | update f fields =>
    exact standing_write hlegacy huser rfl hlive hholds wasDeleted t
  | listUpdate f add remove =>
    rcases l with _ | ⟨il, _ | _⟩ <;> try cases hnext
    have hholds : holdsLevel (some l') committee = holdsLevel (some ⟨il, false⟩) committee := hholds
    have hlive : l'.deleted = false := hlive
    simp [Standing.next, Tracking.next, Tracking.standing, hholds, hlive]
  | delete f | restore f =>
    rcases l with _ | ⟨il, _ | _⟩ <;> cases hnext
    rfl

theorem Tracking.standing_after {l l' : Option Model} {es : List Event}
    (hlegacy : ∀ e ∈ es, IsLegacy e) (hl : History.modelAfter? (userId user) es l = some l')
    (wasDeleted : Bool) (t : Tracking) :
    (t.standing l committee).after wasDeleted user committee es =
      (t.after wasDeleted user committee es).standing l' committee := by
  induction es generalizing l t with
  | nil =>
    cases hl
    rfl
  | cons e es ih =>
    have ih := fun l => @ih l fun d hd => hlegacy d (List.mem_cons_of_mem _ hd)
    rw [History.modelAfter?] at hl
    rw [Standing.after, Tracking.after]
    by_cases huser : e.fqid = userId user
    · rw [if_pos huser] at hl
      obtain ⟨l₁, hl₁, hrest⟩ := Option.bind_eq_some_iff.1 hl
      rw [if_pos huser, if_pos huser, standing_next (hlegacy e List.mem_cons_self)
        (by rw [huser]; rfl) hl₁]
      exact ih _ hrest _
    · rw [if_neg huser] at hl
      rw [if_neg huser, if_neg huser]
      exact ih _ hl _

end Legacy

end MeetingLedger.Migration.CommitteeManagement
