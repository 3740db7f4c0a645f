import MeetingLedger.Proofs.Consistency.Clean
import MeetingLedger.Schema.Builder

/-!
# Stricter and laxer checks

Checks of one snapshot with different options. If one check is at most as strict as another one
wherever the options are looked at, it accepts what the other one accepts.
-/

namespace MeetingLedger.Consistency

open Schema

/-- Wherever a first check looks at its options, it complains if a second check of the same snapshot
does. -/
structure StricterOn (s : Snapshot) (c c' : Checker) : Prop where
  registry : c'.registry = c.registry
  exempt : ∀ collection field, c.isExempt collection field = true →
    c'.isExempt collection field = true
  allowed : ∀ name ∈ s.collectionNames, c'.config.mode.isMeeting = true →
    c.config.mode.isMeeting = true ∨ c.registry.isMeetingScoped name = true
  index : c.indexFindings s = [] → c'.indexFindings s = []
  references : ∀ origin ours f reference,
    referenceProblems c.registry c.config.mode s origin ours f reference = [] →
      referenceProblems c.registry c'.config.mode s origin ours f reference = []

namespace StricterOn

variable {s : Snapshot} {c c' : Checker} {origin : Fqid} {i : Instance}

theorem relationProblems_eq_nil (h : StricterOn s c c') {f : Field} {v : Json}
    (hclean : relationProblems c.registry c.config.mode s origin i f v = []) :
    relationProblems c.registry c'.config.mode s origin i f v = [] := by
  rw [relationProblems, List.flatMap_eq_nil_iff] at hclean ⊢
  intro reference hreference
  exact h.references origin i f reference (hclean reference hreference)

theorem fieldProblems_eq_nil (h : StricterOn s c c') {f : Field} {v : Json}
    (hclean : c.fieldProblems s origin i f v = []) : c'.fieldProblems s origin i f v = [] := by
  have hexempt := h.exempt origin.collection f.name
  rw [Checker.fieldProblems_eq_nil_iff] at hclean ⊢
  obtain ⟨hempty, hvalue⟩ := hclean
  refine ⟨fun hnothing hrequired => hexempt (hempty hnothing hrequired), fun hnull => ?_⟩
  obtain ⟨hcheck, hconstraints, hrelations⟩ := hvalue hnull
  refine ⟨hcheck, hconstraints, fun hrelation hexempt' => ?_⟩
  rw [h.registry]
  apply h.relationProblems_eq_nil
  apply hrelations hrelation
  rw [← Bool.not_eq_true]
  intro hfree
  rw [hexempt hfree] at hexempt'
  cases hexempt'

theorem modelFindings_eq_nil (h : StricterOn s c c') {collection : Collection}
    (hclean : c.modelFindings s collection origin i = []) :
    c'.modelFindings s collection origin i = [] := by
  rw [Checker.modelFindings_eq_nil_iff, Checker.missingFields_eq_nil_iff] at hclean ⊢
  obtain ⟨hpresent, hunknown, hfields, hcontent⟩ := hclean
  refine ⟨fun f hf hmust hnone => ?_, hunknown, fun f hf v hv => ?_, hcontent⟩
  · exact h.exempt _ _ (hpresent f hf hmust hnone)
  · exact h.fieldProblems_eq_nil (hfields f hf v hv)

theorem collectionFindings_eq_nil (h : StricterOn s c c') {name : String}
    {models : SortedMap UInt64 Instance} (hname : name ∈ s.collectionNames)
    (hclean : c.collectionFindings s name models = []) :
    c'.collectionFindings s name models = [] := by
  rw [Checker.collectionFindings_eq_nil_iff] at hclean ⊢
  obtain ⟨collection, hcollection, hscoped, hmodels⟩ := hclean
  rw [h.registry]
  refine ⟨collection, hcollection, fun hmode => ?_, fun id i hi => ?_⟩
  · exact (h.allowed name hname hmode).elim hscoped id
  · exact h.modelFindings_eq_nil (hmodels id i hi)

theorem findings_eq_nil (h : StricterOn s c c') (hclean : c.findings s = []) :
    c'.findings s = [] := by
  rw [Checker.findings_eq_nil_iff] at hclean ⊢
  refine ⟨h.index hclean.1, fun name models hmodels => ?_⟩
  apply h.collectionFindings_eq_nil _ (hclean.2 name models hmodels)
  exact List.mem_map_of_mem (SortedMap.mem_entries_iff.2 hmodels)

theorem run_eq_of_clean {t : Snapshot} (h : StricterOn t c c') (hrepair : (c'.run s).1 = (c.run s).1)
    (hclean : c.run s = (t, [])) : c'.run s = (t, []) := by
  have hfst : (c.run s).1 = t := congrArg Prod.fst hclean
  have hfound : c.findings (c.run s).1 = [] := congrArg Prod.snd hclean
  rw [hfst] at hfound hrepair
  apply Prod.ext hrepair
  change c'.findings (c'.run s).1 = []
  rw [hrepair]
  exact h.findings_eq_nil hfound

end StricterOn

namespace Checker

def inMode (c : Checker) (mode : Mode) : Checker := { c with config := { c.config with mode } }

def withPolicy (c : Checker) (indexPolicy : IndexPolicy) : Checker :=
  { c with config := { c.config with indexPolicy } }

variable (c : Checker) {s : Snapshot}

theorem collectionNames_run : (c.run s).1.collectionNames = s.collectionNames := by
  rw [run]
  cases c.config.repair with
  | false => rfl
  | true => simp [repair, Snapshot.collectionNames, SortedMap.keys, SortedMap.mapValues]

theorem stricterOn_external_internal : StricterOn s (c.inMode .external) (c.inMode .internal) where
  registry := rfl
  exempt _ _ h := h
  allowed _ _ _ := .inl rfl
  index h := h
  references origin ours f reference h := by
    cases reference with
    | foreign collection => exact h
    | allowed model target =>
      simp only [referenceProblems, inMode, Mode.isMeeting, Bool.true_and, if_true] at h ⊢
      split at h
      · cases h
      · rename_i hscoped
        rwa [if_neg hscoped]

/-- Nothing outside of a meeting is found in a dataset that consists of the meeting only. -/
theorem get?_eq_none_of_not_scoped
    (hscoped : ∀ name ∈ s.collectionNames, c.registry.isMeetingScoped name = true) {model : Fqid}
    (hmodel : c.registry.isMeetingScoped model.collection = false) : s.get? model = none := by
  rw [Snapshot.get?, Snapshot.instance?, Snapshot.collection?, Option.bind_eq_none_iff]
  intro models hmodels
  have hname : model.collection ∈ s.collectionNames := by
    rw [Snapshot.collectionNames, SortedMap.mem_keys_iff, SortedMap.contains, hmodels]
    rfl
  rw [hscoped _ hname] at hmodel
  cases hmodel

theorem stricterOn_all_external
    (hscoped : ∀ name ∈ s.collectionNames, c.registry.isMeetingScoped name = true) :
    StricterOn s (c.inMode .all) (c.inMode .external) where
  registry := rfl
  exempt _ _ h := by simp [isExempt, inMode, Mode.isMeeting] at h
  allowed name hname _ := .inr (hscoped name hname)
  index h := h
  references origin ours f reference h := by
    cases reference with
    | foreign collection => exact h
    | allowed model target =>
      simp only [referenceProblems, inMode, Mode.isMeeting, Bool.false_and, Bool.false_eq_true,
        if_false] at h
      cases hmodel : c.registry.isMeetingScoped model.collection with
      | true => simpa [referenceProblems, inMode, Mode.isMeeting, hmodel] using h
      | false => simp [c.get?_eq_none_of_not_scoped hscoped hmodel] at h

variable {c} in
theorem indexFindings_eq_nil_iff_of_strict (hpolicy : c.config.indexPolicy = .strict) :
    c.indexFindings s = [] ↔ s.migrationIndex = some c.backendIndex := by
  rw [indexFindings, hpolicy]
  cases s.migrationIndex <;> simp

theorem stricterOn_strict_permissive :
    StricterOn s (c.withPolicy .strict) (c.withPolicy .permissive) where
  registry := rfl
  exempt _ _ h := h
  allowed _ _ h := .inl h
  index h := by
    have hindex : s.migrationIndex = some c.backendIndex :=
      (indexFindings_eq_nil_iff_of_strict (c := c.withPolicy .strict) rfl).1 h
    simp [indexFindings, withPolicy, hindex]
  references _ _ _ _ h := h

/-- The modes and the treatments of migration indices are ordered by strictness: a snapshot that passes
the stricter check passes the laxer one, and is repaired alike. A check of a whole dataset is stricter
than one of a meeting from elsewhere if the dataset consists of nothing but a meeting. -/
theorem run_mono (s t : Snapshot) :
    ((c.inMode .external).run s = (t, []) → (c.inMode .internal).run s = (t, [])) ∧
    ((c.inMode .all).run s = (t, []) →
      (∀ name ∈ s.collectionNames, c.registry.isMeetingScoped name = true) →
        (c.inMode .external).run s = (t, [])) ∧
    ((c.withPolicy .strict).run s = (t, []) → (c.withPolicy .permissive).run s = (t, [])) := by
  refine ⟨fun h => ?_, fun h hscoped => ?_, fun h => ?_⟩
  · exact (c.stricterOn_external_internal).run_eq_of_clean rfl h
  · have hnames : t.collectionNames = s.collectionNames := by
      have hrun := collectionNames_run (c.inMode .all) (s := s)
      rwa [h] at hrun
    exact (c.stricterOn_all_external (hnames ▸ hscoped)).run_eq_of_clean rfl h
  · exact (c.stricterOn_strict_permissive).run_eq_of_clean rfl h

def topics : Registry := ⟨SortedMap.ofList [
  ("meeting", .declare "meeting" [.plain "id" .number, .many "topic_ids" "topic" "meeting_id"]),
  ("topic", .declare "topic" [.plain "id" .number, .one "meeting_id" "meeting" "topic_ids"])]⟩

def oneTopic : Snapshot :=
  ((Snapshot.empty 4).insert "meeting" 1 ((∅ : Instance).insert "topic_ids" (.ofIds [2]))).insert
    "topic" 2 ((∅ : Instance).insert "meeting_id" (.ofUInt64 1))

theorem run_oneTopic :
    ((Checker.mk topics {} 4).inMode .all).run oneTopic = (oneTopic, []) ∧
    (∀ name ∈ oneTopic.collectionNames, topics.isMeetingScoped name = true) ∧
    (((Checker.mk topics {} 4).inMode .internal).withPolicy .permissive).run oneTopic =
      (oneTopic, []) := by
  have hfound : ((Checker.mk topics { mode := .all } 4).run oneTopic).2.isEmpty = true := by
    decide +kernel
  have hscoped : ∀ name ∈ oneTopic.collectionNames, topics.isMeetingScoped name = true := by decide
  have hwhole : ((Checker.mk topics {} 4).inMode .all).run oneTopic = (oneTopic, []) :=
    Prod.ext rfl (List.isEmpty_iff.1 hfound)
  obtain ⟨hinternal, hexternal, -⟩ := run_mono (Checker.mk topics {} 4) oneTopic oneTopic
  refine ⟨hwhole, hscoped, ?_⟩
  apply (run_mono ((Checker.mk topics {} 4).inMode .internal) oneTopic oneTopic).2.2
  exact hinternal (hexternal hwhole hscoped)

end Checker

end MeetingLedger.Consistency
