import MeetingLedger.Proofs.Migration.Management.Position

/-!
# The events that the step puts in the place of others

From events that it can read the step never fails to make others, and these do to every model what
the events did, apart from the fields that the step rewrites.
-/

namespace MeetingLedger.Migration.CommitteeManagement

variable {e : Event} {h : History} {s s' t : State}

theorem IsReadable.exists_migrateEvent (hreadable : IsReadable e) (h : History) (s : State) :
    ∃ r s', migrateEvent e h s = .done r s' := by
  by_cases huser : e.fqid.collection = "user"
  · rw [migrateEvent_of_user huser]
    have hwrite {fields : Instance} (hfields : e.fields? = some fields) (isCreation : Bool)
        (event : Option Instance → Option (List Event)) :
        ∃ r s', ((migrateFields e.fqid fields isCreation h s).andThen fun r s =>
          .done (event r) s) = .done r s' := by
      obtain ⟨r, s', hdone, -⟩ := hreadable.exists_migrateFields huser hfields
      exact ⟨_, s', Outcome.andThen_eq_done_iff.2 ⟨r, s', hdone, rfl⟩⟩
    cases e with
    | create f fields => exact hwrite rfl true _
    | update f fields => exact hwrite rfl false _
    | listUpdate f add remove | delete f | restore f => exact ⟨_, _, rfl⟩
  · rw [migrateEvent.eq_def, if_neg huser]
    cases e with
    | create f fields =>
      dsimp only
      split
      · exact ⟨_, _, rfl⟩
      · exact ⟨_, _, rfl⟩
    | update f fields | listUpdate f add remove | delete f | restore f => exact ⟨_, _, rfl⟩

theorem exists_migrateEvents {es : List Event} (hreadable : ∀ e ∈ es, IsReadable e) (h : History)
    (s : State) : ∃ events t, step.migrateEvents h es s = .done events t := by
  induction es generalizing s with
  | nil => exact ⟨[], s, rfl⟩
  | cons e es ih =>
    obtain ⟨r, s₁, hfirst⟩ := (hreadable e List.mem_cons_self).exists_migrateEvent h s
    obtain ⟨rest, t, hrest⟩ := ih (fun d hd => hreadable d (List.mem_cons_of_mem _ hd)) s₁
    exact ⟨_, t, EventStep.migrateEvents_cons_eq_done_iff.2 ⟨r, s₁, rest, hfirst, hrest, rfl⟩⟩

theorem filter_rewritten {changes : ListChanges} (hmanaged : managedField ∉ changes.keys) :
    (changes.filter fun name _ => !rewritten "user" name) =
      changes.filter fun name _ => !isFormer name := by
  apply SortedMap.ext_entries
  apply List.filter_congr
  intro d hd
  have hne : d.1 ≠ managedField := by
    rintro heq
    exact hmanaged (heq ▸ List.mem_map_of_mem hd)
  simp [rewritten, hne]

/-- The events instead of an event of a user do to the user what a single one does, which agrees
with the event off the rewritten fields. -/
theorem IsReadable.exists_rewrites {r : Option (List Event)} (hreadable : IsReadable e)
    (huser : e.fqid.collection = "user") (hdone : migrateEvent e h s = .done r s') :
    ∃ e', e.Rewrites (rewritten "user") e' ∧
      ∀ m m', e'.next? m = some m' → History.modelAfter? e.fqid (r.getD [e]) m = some (some m') := by
  have hsingle {d : Event} (hd : d.fqid = e.fqid) (m : Option Model) (m' : Model)
      (hnext : d.next? m = some m') : History.modelAfter? e.fqid [d] m = some (some m') := by
    rw [← hd, History.modelAfter?_singleton, hnext]
    rfl
  rw [migrateEvent_of_user huser] at hdone
  cases e with
  | create f fields =>
    obtain ⟨r₀, s₀, hfields, hr⟩ := Outcome.andThen_eq_done_iff.1 hdone
    obtain ⟨rfl, -⟩ := Outcome.done_eq_done_iff.1 hr
    obtain ⟨r₁, s₁, hfields', hagree⟩ := hreadable.exists_migrateFields huser rfl
    obtain ⟨rfl, -⟩ := Outcome.done_eq_done_iff.1 (hfields.symm.trans hfields')
    refine ⟨_, .create f hagree, ?_⟩
    cases r₀ with
    | none => exact hsingle rfl
    | some fields' => exact hsingle rfl
  | update f fields =>
    obtain ⟨r₀, s₀, hfields, hr⟩ := Outcome.andThen_eq_done_iff.1 hdone
    obtain ⟨rfl, -⟩ := Outcome.done_eq_done_iff.1 hr
    obtain ⟨r₁, s₁, hfields', hagree⟩ := hreadable.exists_migrateFields huser rfl
    obtain ⟨rfl, -⟩ := Outcome.done_eq_done_iff.1 (hfields.symm.trans hfields')
    refine ⟨_, .update f hagree, ?_⟩
    cases r₀ with
    | none => exact hsingle rfl
    | some fields' =>
      by_cases hempty : fields'.isEmpty = true
      · -- an update that writes nothing is left out
        intro m m' hnext
        rcases m with _ | ⟨i, _ | _⟩ <;> cases hnext
        simp [History.modelAfter?, hempty, Instance.merge_of_isEmpty hempty]
      · rw [Option.map_some, Option.getD_some, if_neg hempty]
        exact hsingle rfl
  | listUpdate f add remove =>
    obtain ⟨hr, -⟩ := Outcome.done_eq_done_iff.1 hdone
    have hadd : managedField ∉ add.keys := fun hmem =>
      hreadable.managed_unknown (List.mem_append_left _ hmem)
    have hremove : managedField ∉ remove.keys := fun hmem =>
      hreadable.managed_unknown (List.mem_append_right _ hmem)
    rw [migrateLists] at hr
    by_cases hformer : (add.keys ++ remove.keys).any isFormer = true
    · refine ⟨_, .listUpdate f add remove, ?_⟩
      rw [filter_rewritten hadd, filter_rewritten hremove]
      simp only [hformer, if_true] at hr
      split at hr
      · -- a change of no list is left out
        rename_i hempty
        subst hr
        intro m m' hnext
        obtain ⟨haddEmpty, hremoveEmpty⟩ := Bool.and_eq_true_iff.1 hempty
        rcases m with _ | ⟨i, _ | _⟩ <;> try cases hnext
        have hsame : i.changeLists (add.filter fun name _ => !isFormer name)
            (remove.filter fun name _ => !isFormer name) = (i, none) := by
          rw [Instance.changeLists, List.isEmpty_iff.1 haddEmpty, Instance.addValues]
          simp only [List.isEmpty_iff.1 hremoveEmpty, Instance.removeValues]
        rw [Event.next?, hsame] at hnext
        cases hnext
        rfl
      · subst hr
        exact hsingle rfl
    · simp only [hformer] at hr
      subst hr
      refine ⟨_, .refl fun add' remove' heq name hname => ?_, hsingle rfl⟩
      cases heq
      have hplain : isFormer name = false := by
        rw [← Bool.not_eq_true]
        exact fun hf => hformer (List.any_eq_true.2 ⟨name, hname, hf⟩)
      have hne : name ≠ managedField := by
        rintro rfl
        exact hreadable.managed_unknown hname
      simp [rewritten, hplain, hne]
  | delete f =>
    obtain ⟨rfl, -⟩ := Outcome.done_eq_done_iff.1 hdone
    exact ⟨_, .delete f, hsingle rfl⟩
  | restore f =>
    obtain ⟨rfl, -⟩ := Outcome.done_eq_done_iff.1 hdone
    exact ⟨_, .restore f, hsingle rfl⟩

/-- The events of a position are taken after their migration as they were before it, and do the same
to every model, off the rewritten fields. -/
theorem agreeOff_of_migrateEvents {f : Fqid} {es events : List Event} {m l l' : Option Model}
    (hreadable : ∀ e ∈ es, IsReadable e) (hrun : step.migrateEvents h es s = .done events t)
    (hagree : Model.AgreeOff (rewritten f.collection) m l)
    (hl : History.modelAfter? f es l = some l') :
    ∃ m', History.modelAfter? f events m = some m' ∧
      Model.AgreeOff (rewritten f.collection) m' l' := by
  by_cases huser : f.collection = "user"
  · induction es generalizing s m l events with
    | nil =>
      obtain ⟨rfl, rfl⟩ := Outcome.done_eq_done_iff.1 hrun
      cases hl
      exact ⟨m, rfl, hagree⟩
    | cons e es ih =>
      obtain ⟨r, s₁, rest, hfirst, hrest, rfl⟩ := EventStep.migrateEvents_cons_eq_done_iff.1 hrun
      have ih := fun m l => @ih s₁ rest m l (fun d hd => hreadable d (List.mem_cons_of_mem _ hd)) hrest
      rw [History.modelAfter?] at hl
      by_cases heq : e.fqid = f
      · subst heq
        rw [if_pos rfl] at hl
        obtain ⟨l₁, hl₁, hl⟩ := Option.bind_eq_some_iff.1 hl
        obtain ⟨e', hrewrites, hsame⟩ :=
          (hreadable e List.mem_cons_self).exists_rewrites huser hfirst
        rw [huser] at hagree ih ⊢
        obtain ⟨m₁, hm₁, hagree₁⟩ := hagree.next? hrewrites hl₁
        rw [History.modelAfter?_append, hsame m m₁ hm₁]
        exact ih _ _ hagree₁ hl
      · rw [if_neg heq] at hl
        rw [History.modelAfter?_append, History.modelAfter?_of_forall_ne fun d hd => by
          rw [fqid_of_migrateEvent hfirst d hd]; exact heq]
        exact ih _ _ hagree hl
  · rw [modelAfter?_migrateEvents huser hrun]
    refine hagree.modelAfter? (fun e he heq => .refl fun add remove hlists name hname => ?_) hl
    have hne : name ≠ managersField := by
      rintro rfl
      apply (hreadable e he).managers_unknown
      rw [hlists]
      exact hname
    simp [rewritten, huser, hne]

end MeetingLedger.Migration.CommitteeManagement
