import MeetingLedger.Migration.FileInheritance
import MeetingLedger.Proofs.Container.Except
import MeetingLedger.Proofs.Ledger.Collection

/-!
# Visibilities from the roots down

Each visibility that is derived follows from that of the directory, and what is derived once stays.
-/

namespace MeetingLedger.Migration.FileInheritance

namespace Tree

/-- The visibility that a directory passes on, which is the one of a public place without a
directory. -/
def Known.directory (known : Known) (parent : Option UInt64) : Visibility :=
  (parent.bind known.get?).getD .root

def derive (t : Tree) (known : Known) (id : UInt64) : Known :=
  known.insert id (.compute (t.access id) (known.directory (t.parent? id)))

def Known.Extends (known' known : Known) : Prop :=
  ∀ id v, known.get? id = some v → known'.get? id = some v

/-- Every visibility follows from the one of the directory, which was derived before. -/
structure Sound (t : Tree) (known : Known) : Prop where
  parent : ∀ id v, known.get? id = some v → ∀ parent, t.parent? id = some parent →
    known.contains parent = true
  compute : ∀ id v, known.get? id = some v →
    v = .compute (t.access id) (known.directory (t.parent? id))

variable {t : Tree} {known known' : Known} {id : UInt64} {v : Visibility}

theorem Known.Extends.trans {known₁ known₂ known₃ : Known} (h : Known.Extends known₂ known₁)
    (h' : Known.Extends known₃ known₂) : Known.Extends known₃ known₁ :=
  fun id v hv => h' id v (h id v hv)

theorem Known.Extends.contains (h : Known.Extends known' known) (hid : known.contains id = true) :
    known'.contains id = true := by
  obtain ⟨v, hv⟩ := Option.isSome_iff_exists.1 hid
  exact Option.isSome_iff_exists.2 ⟨v, h id v hv⟩

theorem Known.Extends.directory (h : Known.Extends known' known) {parent : Option UInt64}
    (hparent : ∀ p, parent = some p → known.contains p = true) :
    known'.directory parent = known.directory parent := by
  cases parent with
  | none => rfl
  | some p =>
    obtain ⟨v, hv⟩ := Option.isSome_iff_exists.1 (hparent p rfl)
    simp [Known.directory, hv, h p v hv]

namespace Sound

theorem empty (t : Tree) : Sound t ∅ :=
  ⟨fun _ _ h => by simp at h, fun _ _ h => by simp at h⟩

theorem extends_derive (h : Sound t known) (id : UInt64) :
    Known.Extends (t.derive known id) known := by
  intro id' v hv
  rw [derive, SortedMap.get?_insert]
  split
  · rename_i heq
    subst heq
    rw [h.compute id' v hv]
  · exact hv

theorem derive (h : Sound t known)
    (hparent : ∀ p, t.parent? id = some p → known.contains p = true) :
    Sound t (t.derive known id) := by
  have hextends := h.extends_derive id
  have hderived : ∀ id' v, (t.derive known id).get? id' = some v →
      (∀ p, t.parent? id' = some p → known.contains p = true) ∧
        v = .compute (t.access id') (known.directory (t.parent? id')) := by
    intro id' v hv
    rw [Tree.derive, SortedMap.get?_insert] at hv
    split at hv
    · rename_i heq
      subst heq
      cases hv
      exact ⟨hparent, rfl⟩
    · exact ⟨h.parent id' v hv, h.compute id' v hv⟩
  refine ⟨fun id' v hv p hp => hextends.contains ((hderived id' v hv).1 p hp), fun id' v hv => ?_⟩
  obtain ⟨hp, rfl⟩ := hderived id' v hv
  rw [hextends.directory hp]

end Sound

/-- The visibility of a file is derived, on top of what was, from the directory first. -/
theorem resolve_spec {unvisited : List UInt64} (h : Sound t known)
    (hok : t.resolve known unvisited id = .ok (v, known')) :
    Sound t known' ∧ Known.Extends known' known ∧ known'.get? id = some v := by
  fun_induction t.resolve known unvisited id generalizing v known'
  case case1 id v hknown =>
    cases hok
    exact ⟨h, fun _ _ hv => hv, hknown⟩
  case case2 id _ _ _ hparent =>
    cases hok
    have hnone : ∀ p, t.parent? id = some p → known.contains p = true := by simp [hparent]
    have hsound := h.derive hnone
    have hextends := h.extends_derive id
    simp only [derive, hparent] at hsound hextends
    exact ⟨hsound, hextends, SortedMap.get?_insert_self ..⟩
  case case3 unvisited id _ _ _ parent hparent ih =>
    obtain ⟨⟨directory, known₁⟩, hresolve, hok⟩ := bind_eq_ok_iff.1 hok
    obtain ⟨hsound₁, hextends₁, hdirectory⟩ := ih hresolve
    cases hok
    have hknown : ∀ p, t.parent? id = some p → known₁.contains p = true := by
      intro p hp
      rw [hparent] at hp
      cases hp
      simp [SortedMap.contains, hdirectory]
    have hsound := hsound₁.derive hknown
    have hextends := hsound₁.extends_derive id
    simp only [derive, hparent, Known.directory, Option.bind_some, hdirectory, Option.getD_some]
      at hsound hextends
    exact ⟨hsound, hextends₁.trans hextends, SortedMap.get?_insert_self ..⟩
  case case4 => cases hok

theorem foldlM_resolve_spec {ids : List UInt64} (h : Sound t known)
    (hfold : ids.foldlM (fun known id => do Except.ok (← t.resolve known t.keys id).2) known =
      .ok known') :
    Sound t known' ∧ Known.Extends known' known ∧ ∀ id ∈ ids, known'.contains id = true := by
  induction ids generalizing known with
  | nil =>
    cases hfold
    exact ⟨h, fun _ _ hv => hv, fun _ hid => by cases hid⟩
  | cons id ids ih =>
    rw [List.foldlM_cons] at hfold
    obtain ⟨known₁, hfirst, hrest⟩ := bind_eq_ok_iff.1 hfold
    obtain ⟨⟨v, _⟩, hresolve, heq⟩ := bind_eq_ok_iff.1 hfirst
    cases heq
    obtain ⟨hsound₁, hextends₁, hv⟩ := resolve_spec h hresolve
    obtain ⟨hsound, hextends, hids⟩ := ih hsound₁ hrest
    refine ⟨hsound, hextends₁.trans hextends, fun id' hid' => ?_⟩
    rcases List.mem_cons.1 hid' with rfl | hid'
    · exact hextends.contains (by simp [SortedMap.contains, hv])
    · exact hids id' hid'

theorem resolveAll_spec (hok : t.resolveAll = .ok known) :
    Sound t known ∧ ∀ id ∈ t.keys, known.contains id = true := by
  obtain ⟨hsound, -, hids⟩ := foldlM_resolve_spec (.empty t) hok
  exact ⟨hsound, hids⟩

theorem directory_of_resolveAll (hok : t.resolveAll = .ok known) (hid : id ∈ t.keys) :
    known.directory (some id) = .compute (t.access id) (known.directory (t.parent? id)) := by
  obtain ⟨hsound, hall⟩ := resolveAll_spec hok
  obtain ⟨v, hv⟩ := Option.isSome_iff_exists.1 (hall id hid)
  rw [← hsound.compute id v hv, Known.directory, Option.bind_some, hv, Option.getD_some]

section OfHistory

variable {h : History} {file : Instance}

theorem get?_ofHistory (hfile : (id, file) ∈ h.collection fileCollection) :
    (ofHistory h).get? id = some ⟨file, parentOf? h (h.collection fileCollection) file⟩ := by
  rw [ofHistory, ← SortedMap.mem_entries_iff, SortedMap.entries_ofList]
  · exact List.mem_map.2 ⟨(id, file), hfile, rfl⟩
  · rw [Ascending, List.pairwise_map]
    exact History.ascending_collection

theorem mem_of_get?_ofHistory {n : Node} (hget : (ofHistory h).get? id = some n) :
    (id, n.file) ∈ h.collection fileCollection := by
  obtain ⟨e, he, heq⟩ := List.mem_map.1 (SortedMap.mem_of_get?_ofList hget)
  cases heq
  exact he

theorem get?_ofHistory_eq_map (h : History) (id : UInt64) :
    (ofHistory h).get? id = (h.get? ⟨fileCollection, id⟩).map fun file =>
      ⟨file, parentOf? h (h.collection fileCollection) file⟩ := by
  cases hfile : h.get? ⟨fileCollection, id⟩ with
  | some file => exact get?_ofHistory (History.mem_collection_iff.2 hfile)
  | none =>
    rw [Option.map_none, Option.eq_none_iff_forall_not_mem]
    intro n hn
    have hlive := History.mem_collection_iff.1 (mem_of_get?_ofHistory hn)
    rw [hfile] at hlive
    cases hlive

theorem directory_ofHistory (hok : (ofHistory h).resolveAll = .ok known)
    (hfile : (id, file) ∈ h.collection fileCollection) :
    known.directory (some id) = .compute (file.idsAt "access_group_ids")
      (known.directory (parentOf? h (h.collection fileCollection) file)) := by
  have hget := get?_ofHistory hfile
  have hid : id ∈ (ofHistory h).keys := by simp [SortedMap.mem_keys_iff, SortedMap.contains, hget]
  rw [directory_of_resolveAll hok hid, access, parent?, hget]
  rfl

end OfHistory

end Tree

end MeetingLedger.Migration.FileInheritance
