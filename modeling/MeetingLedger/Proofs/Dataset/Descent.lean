import Mathlib.Data.List.Induction
import MeetingLedger.Dataset.Visibility

/-!
# Visibilities from a root down

A file inherits from the access to the directories on the way down to it. It is public exactly if no
access on the way names groups. Otherwise every group that all named lists have in common may see it,
and no other group may, unless some directory on the way may be seen by nobody: a file with groups of
its own in such a directory starts afresh.
-/

namespace MeetingLedger.Visibility

/-- What a file inherits on the way from a root down to it, given the access to each file on the
way. -/
def descend (way : List (List UInt64)) : Visibility :=
  way.foldl (fun directory access => compute access directory) root

/-- No access on the way names groups. -/
def Unrestricted (way : List (List UInt64)) : Prop := ∀ access ∈ way, access = []

/-- Every access on the way that names groups names this one. -/
def Admits (way : List (List UInt64)) (group : UInt64) : Prop :=
  ∀ access ∈ way, access ≠ [] → group ∈ access

/-- No file with groups of its own lies in a directory that nobody may see. -/
def NoneBelowHidden (way : List (List UInt64)) : Prop :=
  ∀ above access below, way = above ++ access :: below → access ≠ [] →
    (descend above).groups = [] → Unrestricted above

instance (way : List (List UInt64)) : Decidable (Unrestricted way) :=
  inferInstanceAs (Decidable (∀ access ∈ way, access = []))

instance (way : List (List UInt64)) (group : UInt64) : Decidable (Admits way group) :=
  inferInstanceAs (Decidable (∀ access ∈ way, access ≠ [] → group ∈ access))

section Compute

variable {access : List UInt64} {directory : Visibility} {group : UInt64}

/-- A file without groups of its own is as visible as its directory. -/
theorem groups_compute_nil : (compute [] directory).groups = directory.groups := by
  obtain ⟨isPublic, groups⟩ := directory
  cases groups <;> rfl

theorem isPublic_compute (hroot : directory.isPublic = true → directory.groups = []) :
    (compute access directory).isPublic = true ↔ directory.isPublic = true ∧ access = [] := by
  obtain ⟨isPublic, groups⟩ := directory
  cases access <;> cases groups <;> simp_all [compute]

/-- In a directory that names no groups, a file is restricted to its own. -/
theorem groups_compute_of_hidden (h : directory.groups = []) :
    (compute access directory).groups = access := by
  obtain ⟨isPublic, groups⟩ := directory
  obtain rfl : groups = [] := h
  cases access <;> rfl

/-- Where both sides name groups, a file is restricted to those that both name. -/
theorem mem_groups_compute_iff (haccess : access ≠ []) (h : directory.groups ≠ []) :
    group ∈ (compute access directory).groups ↔ group ∈ access ∧ group ∈ directory.groups := by
  obtain ⟨isPublic, _ | ⟨g, groups⟩⟩ := directory
  · exact absurd rfl h
  · cases access with
    | nil => exact absurd rfl haccess
    | cons a access =>
      change group ∈ (a :: access).filter (g :: groups).contains ↔ _
      rw [List.mem_filter, List.contains_iff_mem]

end Compute

section Way

variable {way : List (List UInt64)} {access : List UInt64} {group : UInt64}

theorem descend_concat : descend (way ++ [access]) = compute access (descend way) := by
  rw [descend, List.foldl_append]
  rfl

theorem unrestricted_concat : Unrestricted (way ++ [access]) ↔ Unrestricted way ∧ access = [] := by
  simp [Unrestricted, or_imp, forall_and]

theorem admits_concat :
    Admits (way ++ [access]) group ↔ Admits way group ∧ (access ≠ [] → group ∈ access) := by
  simp [Admits, or_imp, forall_and]

theorem NoneBelowHidden.of_concat (h : NoneBelowHidden (way ++ [access])) :
    NoneBelowHidden way := by
  intro above access' below hway
  exact h above access' (below ++ [access]) (by simp [hway])

theorem descend_of_unrestricted (h : Unrestricted way) : descend way = root := by
  induction way using List.reverseRecOn with
  | nil => rfl
  | append_singleton way access ih =>
    obtain ⟨hway, rfl⟩ := unrestricted_concat.1 h
    rw [descend_concat, ih hway]
    rfl

/-- A file is public exactly if nothing on the way to it is restricted. -/
theorem isPublic_descend_iff : (descend way).isPublic = true ↔ Unrestricted way := by
  induction way using List.reverseRecOn with
  | nil => exact ⟨fun _ => nofun, fun _ => rfl⟩
  | append_singleton way access ih =>
    rw [descend_concat, unrestricted_concat, isPublic_compute, ih]
    intro hpublic
    rw [descend_of_unrestricted (ih.1 hpublic)]
    rfl

/-- Groups that every access on the way admits are not lost. -/
theorem mem_groups_of_admits (hway : ¬ Unrestricted way) (h : Admits way group) :
    group ∈ (descend way).groups := by
  induction way using List.reverseRecOn with
  | nil => exact absurd nofun hway
  | append_singleton way access ih =>
    obtain ⟨habove, hown⟩ := admits_concat.1 h
    rw [descend_concat]
    rw [unrestricted_concat] at hway
    by_cases haccess : access = []
    · subst haccess
      rw [groups_compute_nil]
      exact ih (fun hnone => hway ⟨hnone, rfl⟩) habove
    · by_cases hnone : Unrestricted way
      · rw [descend_of_unrestricted hnone, groups_compute_of_hidden rfl]
        exact hown haccess
      · have hmem := ih hnone habove
        rw [mem_groups_compute_iff haccess (List.ne_nil_of_mem hmem)]
        exact ⟨hown haccess, hmem⟩

/-- Where no file starts afresh, no group is added on the way. -/
theorem admits_of_mem_groups (h : NoneBelowHidden way) (hmem : group ∈ (descend way).groups) :
    Admits way group := by
  induction way using List.reverseRecOn with
  | nil => cases hmem
  | append_singleton way access ih =>
    rw [descend_concat] at hmem
    rw [admits_concat]
    by_cases haccess : access = []
    · subst haccess
      rw [groups_compute_nil] at hmem
      exact ⟨ih h.of_concat hmem, fun hne => absurd rfl hne⟩
    · by_cases hhidden : (descend way).groups = []
      · have hnone : Unrestricted way := h way access [] rfl haccess hhidden
        rw [groups_compute_of_hidden hhidden] at hmem
        exact ⟨fun access hmem hne => absurd (hnone access hmem) hne, fun _ => hmem⟩
      · obtain ⟨hown, habove⟩ := (mem_groups_compute_iff haccess hhidden).1 hmem
        exact ⟨ih h.of_concat habove, fun _ => hown⟩

/-- A group that is admitted all the way down is admitted to each directory on it. -/
theorem noneBelowHidden_of_admits (h : Admits way group) : NoneBelowHidden way := by
  rintro above access below rfl - hhidden
  by_contra hrestricted
  have habove : Admits above group := fun access hmem => h access (List.mem_append_left _ hmem)
  exact List.ne_nil_of_mem (mem_groups_of_admits hrestricted habove) hhidden

end Way

/-- A file is public exactly if no access on the way down to it names groups. If some does, then the
groups that all of them name may see the file, and they are the only ones exactly if nobody sees it
or no file on the way starts afresh below a hidden directory. -/
theorem descend_admits_iff (way : List (List UInt64)) :
    ((descend way).isPublic = true ↔ Unrestricted way) ∧
      (¬ Unrestricted way →
        (∀ group, Admits way group → group ∈ (descend way).groups) ∧
        ((∀ group, group ∈ (descend way).groups ↔ Admits way group) ↔
          (descend way).groups = [] ∨ NoneBelowHidden way)) := by
  refine ⟨isPublic_descend_iff, fun hway => ⟨fun group => mem_groups_of_admits hway, ?_⟩⟩
  constructor
  · intro hsame
    by_cases hhidden : (descend way).groups = []
    · exact .inl hhidden
    · obtain ⟨group, hmem⟩ := List.exists_mem_of_ne_nil _ hhidden
      exact .inr (noneBelowHidden_of_admits ((hsame group).1 hmem))
  · intro h group
    refine ⟨fun hmem => ?_, mem_groups_of_admits hway⟩
    rcases h with hhidden | hnone
    · exact absurd hhidden (List.ne_nil_of_mem hmem)
    · exact admits_of_mem_groups hnone hmem

theorem descend_admits_of_threeLevels :
    ¬ Unrestricted [[5, 6], [], [6, 7]] ∧
      ∀ group, group ∈ (descend [[5, 6], [], [6, 7]]).groups ↔
        Admits [[5, 6], [], [6, 7]] group := by
  have hrestricted : ¬ Unrestricted [[5, 6], [], [6, 7]] := by decide
  have hnone : NoneBelowHidden [[5, 6], [], [6, 7]] :=
    noneBelowHidden_of_admits (show Admits _ 6 by decide)
  exact ⟨hrestricted, ((descend_admits_iff _).2 hrestricted).2.2 (.inr hnone)⟩

/-- Two directories without a group in common hide what lies in them, but a third level with a group
of its own shows it to that group. -/
theorem thirdLevel_admits_excluded_group :
    ¬ Unrestricted [[1], [2], [3]] ∧ (descend [[1], [2]]).groups = [] ∧
      ¬ ∀ group, group ∈ (descend [[1], [2], [3]]).groups ↔ Admits [[1], [2], [3]] group := by
  refine ⟨by decide, by decide, fun h => ?_⟩
  have hexcluded : ¬ Admits [[1], [2], [3]] 3 := by decide
  exact hexcluded ((h 3).1 (by decide))

end MeetingLedger.Visibility
