import Mathlib.Logic.Relation
import MeetingLedger.Proofs.Migration.Inheritance.Placement
import MeetingLedger.Proofs.Migration.Inheritance.Resolve

/-!
# Directories that lie in themselves

When the visibilities can be derived. A file is visited again only on a way that has led from it to
itself, so the only thing that keeps the visibilities from being derived is a directory that lies in
itself, through however many others.
-/

namespace MeetingLedger.Migration.FileInheritance

namespace Tree

def LiesIn (t : Tree) (id parent : UInt64) : Prop := t.parent? id = some parent

/-- A file lies in a directory that lies in another one, and so on, until it is the file itself. -/
def OnCycle (t : Tree) (id : UInt64) : Prop := Relation.TransGen t.LiesIn id id

/-- Every directory that a file of a tree lies in is in the tree. -/
def IsClosed (t : Tree) : Prop := ∀ id parent, t.LiesIn id parent → parent ∈ t.keys

/-- A file that lies in no directory, or in one that is grounded. -/
inductive Grounded (t : Tree) : UInt64 → Prop
  | root {id : UInt64} (parent : t.parent? id = none) : Grounded t id
  | child {id directory : UInt64} (parent : t.LiesIn id directory)
      (rest : Grounded t directory) : Grounded t id

variable {t : Tree} {known known' : Known} {id : UInt64} {v : Visibility}

/-- A way from a file leads through its directory. -/
theorem transGen_iff {target : UInt64} : Relation.TransGen t.LiesIn id target ↔
    ∃ parent, t.LiesIn id parent ∧ Relation.ReflTransGen t.LiesIn parent target :=
  Relation.TransGen.head'_iff

theorem LiesIn.unique {parent parent' : UInt64} (h : t.LiesIn id parent)
    (h' : t.LiesIn id parent') : parent = parent' :=
  Option.some.inj (h.symm.trans h')

theorem Grounded.not_onCycle (h : Grounded t id) : ¬ t.OnCycle id := by
  induction h with
  | root parent =>
    intro hcycle
    obtain ⟨p, hp, -⟩ := transGen_iff.1 hcycle
    cases parent.symm.trans hp
  | @child id directory parent rest ih =>
    intro hcycle
    obtain ⟨p, hp, hback⟩ := transGen_iff.1 hcycle
    obtain rfl := parent.unique hp
    exact ih (Relation.TransGen.tail' hback parent)

def Known.AreGrounded (t : Tree) (known : Known) : Prop :=
  ∀ id, known.contains id = true → Grounded t id

theorem Known.AreGrounded.insert (hknown : Known.AreGrounded t known) (hid : Grounded t id)
    (v : Visibility) : Known.AreGrounded t (SortedMap.insert known id v) := by
  intro id' hid'
  rw [SortedMap.contains_insert, Bool.or_eq_true, decide_eq_true_eq] at hid'
  rcases hid' with rfl | hid'
  · exact hid
  · exact hknown id' hid'

/-- What can be derived is grounded. -/
theorem grounded_of_resolve {unvisited : List UInt64} (hknown : Known.AreGrounded t known)
    (hok : t.resolve known unvisited id = .ok (v, known')) :
    Grounded t id ∧ Known.AreGrounded t known' := by
  fun_induction t.resolve known unvisited id generalizing v known'
  case case1 id v' hget =>
    cases hok
    exact ⟨hknown id (by simp [SortedMap.contains, hget]), hknown⟩
  case case2 id _ _ _ hparent =>
    cases hok
    exact ⟨.root hparent, hknown.insert (.root hparent) _⟩
  case case3 unvisited id _ _ _ parent hparent ih =>
    obtain ⟨⟨directory, known₁⟩, hresolve, hok⟩ := bind_eq_ok_iff.1 hok
    obtain ⟨hdirectory, hknown₁⟩ := ih hresolve
    cases hok
    exact ⟨.child hparent hdirectory, hknown₁.insert (.child hparent hdirectory) _⟩
  case case4 => cases hok

/-- All files that were visited before lie below the one that is visited, so that one that cannot be
visited again lies in itself, and the way from the first file leads to it. -/
theorem onCycle_of_resolve {unvisited : List UInt64} {e : StepError} (hclosed : t.IsClosed)
    (hid : id ∈ t.keys)
    (hvisited : ∀ a ∈ t.keys, a ∉ unvisited → Relation.TransGen t.LiesIn a id)
    (herror : t.resolve known unvisited id = .error e) :
    ∃ place, Relation.ReflTransGen t.LiesIn id place ∧ t.OnCycle place ∧
      e = .invalid ⟨fileCollection, place⟩ .cycle := by
  fun_induction t.resolve known unvisited id generalizing e
  case case1 => cases herror
  case case2 => cases herror
  case case3 unvisited id _ hunvisited _ parent hparent ih =>
    rcases bind_eq_error_iff.1 herror with hresolve | ⟨_, -, hrest⟩
    · obtain ⟨place, hway, hcycle⟩ := ih (hclosed id parent hparent) (fun a ha hleft => by
        by_cases heq : a = id
        · exact .single (heq ▸ hparent)
        · exact .tail (hvisited a ha fun hmem => hleft ((List.mem_erase_of_ne heq).2 hmem))
            hparent) hresolve
      exact ⟨place, .head hparent hway, hcycle⟩
    · cases hrest
  case case4 unvisited id _ hunvisited =>
    cases herror
    exact ⟨id, .refl, hvisited id hid hunvisited, rfl⟩

theorem foldlM_resolve_cases (hclosed : t.IsClosed) {ids : List UInt64}
    (hids : ∀ id ∈ ids, id ∈ t.keys) (hknown : Known.AreGrounded t known) :
    (∃ known', ids.foldlM (fun known id => do Except.ok (← t.resolve known t.keys id).2) known =
        .ok known' ∧ ∀ id ∈ ids, Grounded t id) ∨
      ∃ id, t.OnCycle id ∧
        ids.foldlM (fun known id => do Except.ok (← t.resolve known t.keys id).2) known =
          .error (.invalid ⟨fileCollection, id⟩ .cycle) := by
  induction ids generalizing known with
  | nil => exact .inl ⟨known, rfl, nofun⟩
  | cons id ids ih =>
    rw [List.foldlM_cons]
    cases hresolve : t.resolve known t.keys id with
    | error e =>
      obtain ⟨place, -, hcycle, rfl⟩ := onCycle_of_resolve hclosed (hids id List.mem_cons_self)
        (fun a ha hleft => absurd ha hleft) hresolve
      exact .inr ⟨place, hcycle, rfl⟩
    | ok result =>
      obtain ⟨v, known₁⟩ := result
      obtain ⟨hid, hknown₁⟩ := grounded_of_resolve hknown hresolve
      rcases ih (fun id' hid' => hids id' (List.mem_cons_of_mem _ hid')) hknown₁ with
        ⟨known', hok, hgrounded⟩ | hcycle
      · exact .inl ⟨known', hok, List.forall_mem_cons.2 ⟨hid, hgrounded⟩⟩
      · exact .inr hcycle

theorem resolveAll_cases (hclosed : t.IsClosed) :
    (∃ known, t.resolveAll = .ok known ∧ ∀ id ∈ t.keys, Grounded t id) ∨
      ∃ id, t.OnCycle id ∧ t.resolveAll = .error (.invalid ⟨fileCollection, id⟩ .cycle) :=
  foldlM_resolve_cases hclosed (fun _ hid => hid) fun _ hid => by
    simp [SortedMap.contains] at hid

theorem mem_keys_of_onCycle (h : t.OnCycle id) : id ∈ t.keys := by
  obtain ⟨parent, hparent, -⟩ := transGen_iff.1 h
  rw [LiesIn, parent?] at hparent
  obtain ⟨n, hn, -⟩ := Option.bind_eq_some_iff.1 hparent
  simp [SortedMap.mem_keys_iff, SortedMap.contains, hn]

/-- The visibilities can be derived exactly if there is no cycle. -/
theorem resolveAll_isOk_iff (hclosed : t.IsClosed) :
    (∃ known, t.resolveAll = .ok known) ↔ ¬ ∃ id, t.OnCycle id := by
  rcases resolveAll_cases hclosed with ⟨known, hok, hgrounded⟩ | ⟨id, hcycle, herror⟩
  · refine iff_of_true ⟨known, hok⟩ ?_
    rintro ⟨id, hcycle⟩
    exact (hgrounded id (mem_keys_of_onCycle hcycle)).not_onCycle hcycle
  · refine iff_of_false ?_ (not_not_intro ⟨id, hcycle⟩)
    rintro ⟨known, hok⟩
    cases hok.symm.trans herror

section OfHistory

variable {h : History} {file : Instance}

theorem parent?_ofHistory (hfile : (id, file) ∈ h.collection fileCollection) :
    (ofHistory h).parent? id = parentOf? h (h.collection fileCollection) file := by
  rw [parent?, get?_ofHistory hfile]
  rfl

theorem mem_keys_ofHistory (hfile : (id, file) ∈ h.collection fileCollection) :
    id ∈ (ofHistory h).keys := by
  simp [SortedMap.mem_keys_iff, SortedMap.contains, get?_ofHistory hfile]

theorem isClosed_ofHistory (h : History) : (ofHistory h).IsClosed := by
  intro id parent hparent
  have hlies := hparent
  rw [LiesIn, parent?] at hparent
  obtain ⟨n, hn, -⟩ := Option.bind_eq_some_iff.1 hparent
  rw [LiesIn, parent?_ofHistory (mem_of_get?_ofHistory hn)] at hlies
  obtain ⟨directory, hmem⟩ := exists_of_parentOf? hlies
  exact mem_keys_ofHistory hmem

end OfHistory

end Tree

end MeetingLedger.Migration.FileInheritance
