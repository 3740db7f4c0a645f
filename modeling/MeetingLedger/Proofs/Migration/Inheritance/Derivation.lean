import MeetingLedger.Proofs.Migration.Inheritance.Cycles
import MeetingLedger.Proofs.Migration.Inheritance.Directories

/-!
# Visibilities without a memory

The visibility of a file by plain recursion through its directories, which goes on for ever where a
directory is come to twice. With the visibilities that were derived before, in whatever order, the
derivation gives the same, and it reports exactly the files for which the plain recursion has no end.
-/

namespace MeetingLedger.Migration.FileInheritance

namespace Tree

/-- The place that lies a number of levels above a file, the file itself if the number is zero. -/
def above? (t : Tree) : Nat → UInt64 → Option UInt64
  | 0, id => some id
  | n + 1, id => (t.parent? id).bind (t.above? n)

/-- The way from a file through its directories comes to some place twice. -/
def Revisits (t : Tree) (id : UInt64) : Prop :=
  ∃ place m n, m < n ∧ t.above? m id = some place ∧ t.above? n id = some place

/-- The visibility of a file by plain recursion through its directories. -/
inductive Derives (t : Tree) : UInt64 → Visibility → Prop
  | root {id : UInt64} (parent : t.parent? id = none) :
      Derives t id (.compute (t.access id) .root)
  | child {id directory : UInt64} {v : Visibility} (parent : t.LiesIn id directory)
      (rest : Derives t directory v) : Derives t id (.compute (t.access id) v)

def resolveEach (t : Tree) (ids : List UInt64) : Except StepError Known :=
  ids.foldlM (fun known id => do .ok (← t.resolve known t.keys id).2) ∅

variable {t : Tree} {known known' : Known} {id place : UInt64} {v w : Visibility}

section Ways

theorem above?_add (m n : Nat) (id : UInt64) :
    t.above? (m + n) id = (t.above? m id).bind (t.above? n) := by
  induction m generalizing id with
  | zero => rw [Nat.zero_add, above?, Option.bind_some]
  | succ m ih =>
    rw [Nat.succ_add, above?, above?, Option.bind_assoc]
    exact congrArg _ (funext ih)

theorem reflTransGen_of_above? {n : Nat} (h : t.above? n id = some place) :
    Relation.ReflTransGen t.LiesIn id place := by
  induction n generalizing id with
  | zero =>
    cases h
    exact .refl
  | succ n ih =>
    obtain ⟨directory, hparent, hrest⟩ := Option.bind_eq_some_iff.1 h
    exact .head hparent (ih hrest)

theorem exists_above? (h : Relation.ReflTransGen t.LiesIn id place) :
    ∃ n, t.above? n id = some place := by
  induction h using Relation.ReflTransGen.head_induction_on with
  | refl => exact ⟨0, rfl⟩
  | head hparent _ ih =>
    obtain ⟨n, hn⟩ := ih
    exact ⟨n + 1, Option.bind_eq_some_iff.2 ⟨_, hparent, hn⟩⟩

theorem onCycle_iff_above? : t.OnCycle place ↔ ∃ n, t.above? (n + 1) place = some place := by
  rw [OnCycle, transGen_iff]
  constructor
  · rintro ⟨directory, hparent, hback⟩
    obtain ⟨n, hn⟩ := exists_above? hback
    exact ⟨n, Option.bind_eq_some_iff.2 ⟨directory, hparent, hn⟩⟩
  · rintro ⟨n, hn⟩
    obtain ⟨directory, hparent, hrest⟩ := Option.bind_eq_some_iff.1 hn
    exact ⟨directory, hparent, reflTransGen_of_above? hrest⟩

/-- The way from a file comes to some place twice if it leads to a cycle. -/
theorem revisits_iff : t.Revisits id ↔
    ∃ place, Relation.ReflTransGen t.LiesIn id place ∧ t.OnCycle place := by
  constructor
  · rintro ⟨place, m, n, hlt, hm, hn⟩
    obtain ⟨k, rfl⟩ := Nat.exists_eq_add_of_lt hlt
    rw [Nat.add_assoc, above?_add, hm, Option.bind_some] at hn
    exact ⟨place, reflTransGen_of_above? hm, onCycle_iff_above?.2 ⟨k, hn⟩⟩
  · rintro ⟨place, hway, hcycle⟩
    obtain ⟨m, hm⟩ := exists_above? hway
    obtain ⟨k, hk⟩ := onCycle_iff_above?.1 hcycle
    refine ⟨place, m, m + (k + 1), by omega, hm, ?_⟩
    rw [above?_add, hm, Option.bind_some, hk]

theorem Grounded.of_way (h : Grounded t id) (hway : Relation.ReflTransGen t.LiesIn id place) :
    Grounded t place := by
  induction hway using Relation.ReflTransGen.head_induction_on with
  | refl => exact h
  | head hparent _ ih =>
    cases h with
    | root parent => cases parent.symm.trans hparent
    | child parent rest =>
      obtain rfl := parent.unique hparent
      exact ih rest

theorem Grounded.not_revisits (h : Grounded t id) : ¬ t.Revisits id := by
  rw [revisits_iff]
  rintro ⟨place, hway, hcycle⟩
  exact (h.of_way hway).not_onCycle hcycle

end Ways

section Values

/-- The plain recursion has at most one result. -/
theorem Derives.unique (hv : Derives t id v) (hw : Derives t id w) : v = w := by
  induction hv generalizing w with
  | root parent =>
    cases hw with
    | root => rfl
    | child parent' => cases parent.symm.trans parent'
  | child parent rest ih =>
    cases hw with
    | root parent' => cases parent'.symm.trans parent
    | child parent' rest' =>
      obtain rfl := parent.unique parent'
      rw [ih rest']

/-- What is known of a file is what the plain recursion gives. -/
theorem Sound.derives (h : Sound t known) (hid : Grounded t id) (hv : known.get? id = some v) :
    Derives t id v := by
  induction hid generalizing v with
  | @root id parent =>
    have hroot := Derives.root parent
    rw [h.compute id v hv, parent]
    exact hroot
  | @child id directory parent rest ih =>
    obtain ⟨w, hw⟩ := Option.isSome_iff_exists.1 (h.parent id v hv directory parent)
    have hchild := Derives.child parent (ih hw)
    rw [h.compute id v hv, show t.parent? id = some directory from parent, Known.directory,
      Option.bind_some, hw, Option.getD_some]
    exact hchild

end Values

/-- What is known follows from what is known of the directories, and only of grounded files is
anything known. -/
structure Known.IsFaithful (t : Tree) (known : Known) : Prop where
  sound : Sound t known
  grounded : known.AreGrounded t

theorem Known.isFaithful_empty (t : Tree) : Known.IsFaithful t ∅ :=
  ⟨.empty t, fun _ h => by simp [SortedMap.contains] at h⟩

/-- A derivation from what is known faithfully leaves such knowledge, and gives what the plain recursion
gives. -/
theorem Known.IsFaithful.resolve {unvisited : List UInt64} (h : Known.IsFaithful t known)
    (hok : t.resolve known unvisited id = .ok (v, known')) :
    Known.IsFaithful t known' ∧ Derives t id v := by
  obtain ⟨hsound, -, hv⟩ := resolve_spec h.sound hok
  obtain ⟨hid, hgrounded⟩ := grounded_of_resolve h.grounded hok
  exact ⟨⟨hsound, hgrounded⟩, hsound.derives hid hv⟩

/-- Whatever was derived before, a file is reported just if its way comes to some place twice. -/
theorem Known.IsFaithful.resolve_cases (h : Known.IsFaithful t known) (hclosed : t.IsClosed)
    (hid : id ∈ t.keys) :
    (¬ t.Revisits id ∧ ∃ v known', t.resolve known t.keys id = .ok (v, known')) ∨
      (t.Revisits id ∧ ∃ place, t.OnCycle place ∧
        t.resolve known t.keys id = .error (.invalid ⟨fileCollection, place⟩ .cycle)) := by
  cases hresolve : t.resolve known t.keys id with
  | ok result =>
    obtain ⟨v, known'⟩ := result
    exact .inl ⟨(grounded_of_resolve h.grounded hresolve).1.not_revisits, v, known', rfl⟩
  | error e =>
    obtain ⟨place, hway, hcycle, rfl⟩ :=
      onCycle_of_resolve hclosed hid (fun a ha hleft => absurd ha hleft) hresolve
    exact .inr ⟨revisits_iff.2 ⟨place, hway, hcycle⟩, place, hcycle, rfl⟩

/-- Files of which no way comes to a place twice can be derived in any order. -/
theorem exists_resolveEach (hclosed : t.IsClosed) {ids : List UInt64}
    (hids : ∀ id ∈ ids, id ∈ t.keys ∧ ¬ t.Revisits id) :
    ∃ known, t.resolveEach ids = .ok known ∧ Known.IsFaithful t known := by
  suffices hfrom : ∀ known, Known.IsFaithful t known → ∃ known',
      ids.foldlM (fun known id => do Except.ok (← t.resolve known t.keys id).2) known =
        .ok known' ∧ Known.IsFaithful t known' from hfrom ∅ (Known.isFaithful_empty t)
  induction ids with
  | nil => exact fun known h => ⟨known, rfl, h⟩
  | cons id ids ih =>
    intro known h
    obtain ⟨⟨hid, hway⟩, hrest⟩ := List.forall_mem_cons.1 hids
    rcases h.resolve_cases hclosed hid with ⟨-, v, known', hok⟩ | ⟨hrevisits, -⟩
    · have hstep : (do Except.ok (← t.resolve known t.keys id).2) = .ok known' := by
        rw [hok]
        rfl
      rw [foldlM_cons_of_ok hstep]
      exact ih hrest known' (h.resolve hok).1
    · exact absurd hrevisits hway

section OfHistory

variable {h : History}

theorem mem_keys_ofHistory_iff : id ∈ (ofHistory h).keys ↔ h.hasLive ⟨fileCollection, id⟩ = true := by
  rw [SortedMap.mem_keys_iff, SortedMap.contains, get?_ofHistory_eq_map, Option.isSome_map]
  rfl

end OfHistory

end Tree

/-- The step reports a cycle just if the way of some file comes to a place twice. Whatever other files
were derived before, in whatever order, a file is reported just if its own way does, and otherwise its
visibility is the one result of the plain recursion. -/
theorem fails_iff_revisits (h : History) :
    let t := Tree.ofHistory h
    ((∃ e, migrateModels h = .error e) ↔
      ∃ id, h.hasLive ⟨fileCollection, id⟩ = true ∧ t.Revisits id) ∧
    ∀ ids : List UInt64, (∀ id ∈ ids, h.hasLive ⟨fileCollection, id⟩ = true ∧ ¬ t.Revisits id) →
      ∃ known, t.resolveEach ids = .ok known ∧
        ∀ id, h.hasLive ⟨fileCollection, id⟩ = true →
          (t.Revisits id → ∃ place, t.OnCycle place ∧
            t.resolve known t.keys id = .error (.invalid ⟨fileCollection, place⟩ .cycle)) ∧
          (¬ t.Revisits id → ∃ v known', t.resolve known t.keys id = .ok (v, known') ∧
            ∀ w, t.Derives id w ↔ w = v) := by
  intro t
  have hclosed : t.IsClosed := Tree.isClosed_ofHistory h
  simp only [← Tree.mem_keys_ofHistory_iff]
  refine ⟨?_, fun ids hids => ?_⟩
  · rcases Tree.resolveAll_cases hclosed with ⟨known, hok, hgrounded⟩ | ⟨place, hcycle, herror⟩
    · refine iff_of_false ?_ ?_
      · rintro ⟨e, herror⟩
        rw [migrateModels, show (Tree.ofHistory h).resolveAll = .ok known from hok] at herror
        cases herror
      · rintro ⟨id, hid, hrevisits⟩
        exact (hgrounded id hid).not_revisits hrevisits
    · refine iff_of_true ⟨_, bind_eq_error_iff.2 (.inl herror)⟩ ?_
      exact ⟨place, Tree.mem_keys_of_onCycle hcycle, Tree.revisits_iff.2 ⟨place, .refl, hcycle⟩⟩
  · obtain ⟨known, hok, hfaithful⟩ := Tree.exists_resolveEach hclosed hids
    refine ⟨known, hok, fun id hid => ?_⟩
    rcases hfaithful.resolve_cases hclosed hid with ⟨hway, v, known', hresolve⟩ | ⟨hway, hreport⟩
    · have hderives := (hfaithful.resolve hresolve).2
      exact ⟨fun hrevisits => absurd hrevisits hway, fun _ => ⟨v, known', hresolve,
        fun w => ⟨fun hw => hw.unique hderives, fun hw => hw ▸ hderives⟩⟩⟩
    · exact ⟨fun _ => hreport, fun hnot => absurd hway hnot⟩

/-- Two media that lie in each other, a file below them, and a file in a directory beside them. -/
def tangled : History :=
  let medium := fun (id parent : UInt64) =>
    Event.create ⟨"mediafile", id⟩ ((∅ : Instance).insert "parent_id" (.ofUInt64 parent))
  (History.empty.applyAll
    [medium 1 2, medium 2 1, medium 3 1, .create ⟨"mediafile", 4⟩ ∅, medium 5 4,
     .create ⟨fileCollection, 1⟩ (placed 1 []), .create ⟨fileCollection, 2⟩ (placed 2 []),
     .create ⟨fileCollection, 3⟩ (placed 3 []), .create ⟨fileCollection, 4⟩ (placed 4 [7]),
     .create ⟨fileCollection, 5⟩ (placed 5 [])]).history

/-- The directory of the last file is derived first, and the file below the cycle is reported. -/
theorem tangled_fails_below_cycle :
    let t := Tree.ofHistory tangled
    (∃ e, migrateModels tangled = .error e) ∧ ∃ known, t.resolveEach [4] = .ok known ∧
      (∃ known', t.resolve known t.keys 5 = .ok (⟨false, [7]⟩, known')) ∧
      ∃ place, t.OnCycle place ∧
        t.resolve known t.keys 3 = .error (.invalid ⟨fileCollection, place⟩ .cycle) := by
  intro t
  have hroot : t.parent? 4 = none := by decide +kernel
  have hparent : t.LiesIn 5 4 := show t.parent? 5 = some 4 by decide +kernel
  have hfour : Tree.Grounded t 4 := .root hroot
  have hfive : Tree.Grounded t 5 := .child hparent hfour
  have hthree : t.Revisits 3 := ⟨1, 1, 3, by decide, by decide +kernel, by decide +kernel⟩
  have hall : [3, 4, 5].all (fun id => tangled.hasLive ⟨fileCollection, id⟩) = true := by
    decide +kernel
  have hlive := List.all_eq_true.1 hall
  obtain ⟨hfails, hderived⟩ := fails_iff_revisits tangled
  obtain ⟨known, hok, hfiles⟩ := hderived [4]
    (List.forall_mem_singleton.2 ⟨hlive 4 (by decide), hfour.not_revisits⟩)
  obtain ⟨v, known', hresolve, hvalue⟩ := (hfiles 5 (hlive 5 (by decide))).2 hfive.not_revisits
  have hplain := (hvalue _).1 (.child hparent (.root hroot))
  have hgroups : Visibility.compute (t.access 5) (.compute (t.access 4) .root) = ⟨false, [7]⟩ := by
    decide +kernel
  obtain rfl : v = ⟨false, [7]⟩ := hplain.symm.trans hgroups
  exact ⟨hfails.2 ⟨3, hlive 3 (by decide), hthree⟩, known, hok, ⟨known', hresolve⟩,
    (hfiles 3 (hlive 3 (by decide))).1 hthree⟩

end MeetingLedger.Migration.FileInheritance
