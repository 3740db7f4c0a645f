import MeetingLedger.Proofs.Ledger.ModelView

/-!
# Versions of a model that agree off some fields

Two versions of a log differ in some fields only. An event that one version takes is taken by the
other as well, as long as it is about the same model and leaves out the lists among those fields:
whether an event is refused depends on the fields of which it changes lists, on no others.
-/

namespace MeetingLedger

namespace Instance

/-- Two instances hold the same in every field that is not one of some. -/
def AgreeOff (written : String → Bool) (i j : Instance) : Prop :=
  ∀ name, written name = false → i.get? name = j.get? name

variable {written : String → Bool} {i j : Instance}

theorem AgreeOff.refl (i : Instance) : i.AgreeOff written i := fun _ _ => rfl

theorem AgreeOff.symm (h : i.AgreeOff written j) : j.AgreeOff written i := fun name hname =>
  (h name hname).symm

theorem AgreeOff.trans {k : Instance} (h : i.AgreeOff written j) (h' : j.AgreeOff written k) :
    i.AgreeOff written k := fun name hname => (h name hname).trans (h' name hname)

theorem AgreeOff.insert (h : i.AgreeOff written j) (field : String) (v : Json) :
    AgreeOff written (i.insert field v) (j.insert field v) := by
  intro name hname
  rw [SortedMap.get?_insert, SortedMap.get?_insert, h name hname]

theorem AgreeOff.insert_right (h : i.AgreeOff written j) {field : String}
    (hfield : written field = true) (v : Json) : AgreeOff written i (j.insert field v) := by
  intro name hname
  have hne : name ≠ field := by
    rintro rfl
    rw [hfield] at hname
    cases hname
  rw [SortedMap.get?_insert_of_ne _ hne, h name hname]

theorem AgreeOff.merge {fields fields' : Instance} (h : i.AgreeOff written j)
    (hfields : fields.AgreeOff written fields') :
    (i.merge fields).AgreeOff written (j.merge fields') := by
  intro name hname
  by_cases hid : name = "id"
  · subst hid
    rw [get?_merge_id, get?_merge_id, h _ hname]
  · rw [get?_merge _ _ hid, get?_merge _ _ hid, h _ hname, hfields _ hname]

theorem AgreeOff.listAt? (h : i.AgreeOff written j) {field : String}
    (hfield : written field = false) : i.listAt? field = j.listAt? field := by
  rw [Instance.listAt?, Instance.listAt?, h field hfield]

/-- Additions that one version takes are taken by the other, those to the other fields left out. -/
theorem AgreeOff.addValues (h : i.AgreeOff written j) {adds : List (String × List Json)}
    (hadds : (addValues adds j).2 = none) :
    (Instance.addValues (adds.filter (!written ·.1)) i).2 = none ∧
      (Instance.addValues (adds.filter (!written ·.1)) i).1.AgreeOff written
        (Instance.addValues adds j).1 := by
  induction adds generalizing i j with
  | nil => exact ⟨rfl, h⟩
  | cons e adds ih =>
    obtain ⟨field, values⟩ := e
    rw [Instance.addValues] at hadds ⊢
    cases hitems : j.listAt? field with
    | none => simp [hitems] at hadds
    | some items =>
      simp only [hitems] at hadds ⊢
      cases hfield : written field with
      | true =>
        rw [List.filter_cons_of_neg (by simp [hfield])]
        exact ih (h.insert_right hfield _) hadds
      | false =>
        rw [List.filter_cons_of_pos (by simp [hfield]), Instance.addValues, h.listAt? hfield, hitems]
        exact ih (h.insert field _) hadds

/-- Removals that one version takes are taken by the other, those from the other fields left out. -/
theorem AgreeOff.removeValues (h : i.AgreeOff written j) {removes : List (String × List Json)}
    (hremoves : (removeValues removes j).2 = none) :
    (Instance.removeValues (removes.filter (!written ·.1)) i).2 = none ∧
      (Instance.removeValues (removes.filter (!written ·.1)) i).1.AgreeOff written
        (Instance.removeValues removes j).1 := by
  induction removes generalizing i j with
  | nil => exact ⟨rfl, h⟩
  | cons e removes ih =>
    obtain ⟨field, values⟩ := e
    rw [Instance.removeValues] at hremoves ⊢
    cases hfield : written field with
    | true =>
      rw [List.filter_cons_of_neg (by simp [hfield])]
      by_cases hcontains : j.contains field = true
      · cases hitems : j.listAt? field with
        | none => simp [hitems, hcontains] at hremoves
        | some items =>
          simp only [hitems, hcontains, if_true] at hremoves ⊢
          exact ih (h.insert_right hfield _) hremoves
      · simp only [hcontains] at hremoves ⊢
        exact ih h hremoves
    | false =>
      rw [List.filter_cons_of_pos (by simp [hfield]), Instance.removeValues, h.listAt? hfield,
        SortedMap.contains, h field hfield]
      by_cases hcontains : j.contains field = true
      · have hsome : (j.get? field).isSome = true := hcontains
        cases hitems : j.listAt? field with
        | none => simp [hitems, hcontains] at hremoves
        | some items =>
          simp only [hitems, hcontains, hsome, if_true] at hremoves ⊢
          exact ih (h.insert field _) hremoves
      · have hnone : ¬ (j.get? field).isSome = true := hcontains
        simp only [hcontains, hnone] at hremoves ⊢
        exact ih h hremoves

/-- Changes of lists that one version takes are taken by the other, those of the other fields left
out. -/
theorem AgreeOff.changeLists (h : i.AgreeOff written j) {add remove : ListChanges}
    (hchange : (j.changeLists add remove).2 = none) :
    (i.changeLists (add.filter fun name _ => !written name)
        (remove.filter fun name _ => !written name)).2 = none ∧
      (i.changeLists (add.filter fun name _ => !written name)
        (remove.filter fun name _ => !written name)).1.AgreeOff written
          (j.changeLists add remove).1 := by
  rw [Instance.changeLists] at hchange ⊢
  rw [Instance.changeLists]
  cases hadds : Instance.addValues add.entries j with
  | mk j₁ failed =>
    cases failed with
    | some field => simp [hadds] at hchange
    | none =>
      have hdone : (Instance.addValues add.entries j).2 = none := by rw [hadds]
      have hfirst := h.addValues hdone
      rw [hadds] at hfirst hchange
      cases hadds' : Instance.addValues (add.filter fun name _ => !written name).entries i with
      | mk i₁ failed =>
        rw [show (add.filter fun name _ => !written name).entries =
          add.entries.filter (!written ·.1) from rfl] at hadds'
        rw [hadds'] at hfirst
        obtain ⟨rfl, h₁⟩ := hfirst
        exact h₁.removeValues hchange

end Instance

/-- Two versions of a model that exist both or neither, are deleted both or neither and hold the
same in every field that is not one of some. -/
inductive Model.AgreeOff (written : String → Bool) : Option Model → Option Model → Prop
  | absent : AgreeOff written none none
  | present {i j : Instance} (deleted : Bool) (fields : i.AgreeOff written j) :
      AgreeOff written (some ⟨i, deleted⟩) (some ⟨j, deleted⟩)

/-- An event writes what another one writes, apart from some fields, and leaves out the changes of
lists in those fields. -/
inductive Event.Rewrites (written : String → Bool) : Event → Event → Prop
  | create (f : Fqid) {fields fields' : Instance} (h : fields'.AgreeOff written fields) :
      Rewrites written (.create f fields) (.create f fields')
  | update (f : Fqid) {fields fields' : Instance} (h : fields'.AgreeOff written fields) :
      Rewrites written (.update f fields) (.update f fields')
  | listUpdate (f : Fqid) (add remove : ListChanges) :
      Rewrites written (.listUpdate f add remove)
        (.listUpdate f (add.filter fun name _ => !written name)
          (remove.filter fun name _ => !written name))
  | delete (f : Fqid) : Rewrites written (.delete f) (.delete f)
  | restore (f : Fqid) : Rewrites written (.restore f) (.restore f)

section Versions

variable {written : String → Bool} {a b : Option Model}

theorem Model.AgreeOff.refl (a : Option Model) : AgreeOff written a a := by
  cases a with
  | none => exact .absent
  | some m => exact .present m.deleted (.refl m.fields)

theorem Model.AgreeOff.symm (h : AgreeOff written a b) : AgreeOff written b a := by
  cases h with
  | absent => exact .absent
  | present deleted fields => exact .present deleted fields.symm

theorem Model.AgreeOff.trans {c : Option Model} (h : AgreeOff written a b)
    (h' : AgreeOff written b c) : AgreeOff written a c := by
  cases h with
  | absent => exact h'
  | present deleted fields =>
    cases h' with
    | present _ fields' => exact .present deleted (fields.trans fields')

theorem Event.Rewrites.refl {e : Event}
    (hlists : ∀ add remove, e = .listUpdate e.fqid add remove →
      ∀ name ∈ add.keys ++ remove.keys, written name = false) : Rewrites written e e := by
  cases e with
  | create f fields => exact .create f (.refl fields)
  | update f fields => exact .update f (.refl fields)
  | delete f => exact .delete f
  | restore f => exact .restore f
  | listUpdate f add remove =>
    have hkept {changes : ListChanges} (h : ∀ name ∈ changes.keys, written name = false) :
        changes.filter (fun name _ => !written name) = changes := by
      apply SortedMap.ext_entries
      apply List.filter_eq_self.2
      intro d hd
      simp [h d.1 (List.mem_map_of_mem hd)]
    have hnames := hlists add remove rfl
    have hrewrites : Rewrites written (.listUpdate f add remove) _ := .listUpdate f add remove
    rwa [hkept fun name hname => hnames name (List.mem_append_left _ hname),
      hkept fun name hname => hnames name (List.mem_append_right _ hname)] at hrewrites

/-- What one version takes is taken by the other. -/
theorem Model.AgreeOff.next? {e e' : Event} {b' : Model} (h : AgreeOff written a b)
    (he : e.Rewrites written e') (hb : e.next? b = some b') :
    ∃ a', e'.next? a = some a' ∧ AgreeOff written (some a') (some b') := by
  cases he with
  | create f hfields =>
    cases h with
    | absent =>
      cases hb
      exact ⟨_, rfl, .present false ((Instance.AgreeOff.refl _).merge hfields)⟩
    | present deleted fields => cases hb
  | update f hfields =>
    rcases h with _ | ⟨_ | _, fields⟩ <;> cases hb
    exact ⟨_, rfl, .present false (fields.merge hfields)⟩
  | listUpdate f add remove =>
    rcases h with _ | ⟨_ | _, fields⟩ <;> try cases hb
    rw [Event.next?] at hb
    split at hb
    · rename_i hdone
      cases hb
      obtain ⟨hdone', hagree⟩ := fields.changeLists (Option.isNone_iff_eq_none.1 hdone)
      refine ⟨_, ?_, .present false hagree⟩
      rw [Event.next?, hdone']
      rfl
    · cases hb
  | delete f | restore f =>
    rcases h with _ | ⟨_ | _, fields⟩ <;> cases hb
    exact ⟨_, rfl, .present _ fields⟩

/-- Versions that agree off no field are the same. -/
theorem Model.AgreeOff.eq (h : AgreeOff written a b) (hnone : ∀ name, written name = false) :
    a = b := by
  cases h with
  | absent => rfl
  | present deleted fields =>
    rw [SortedMap.ext_get? fun name => fields name (hnone name)]

theorem Event.exists_rewrites (written : String → Bool) (e : Event) : ∃ d, e.Rewrites written d := by
  cases e with
  | create f fields => exact ⟨_, .create f (.refl fields)⟩
  | update f fields => exact ⟨_, .update f (.refl fields)⟩
  | listUpdate f add remove => exact ⟨_, .listUpdate f add remove⟩
  | delete f => exact ⟨_, .delete f⟩
  | restore f => exact ⟨_, .restore f⟩

/-- Two events that both versions take leave versions that agree, if the events come to the same once
the lists in some fields are left out. -/
theorem Model.AgreeOff.next?_of_rewrites {d e e' : Event} {a' b' : Model} (h : AgreeOff written a b)
    (he : e.Rewrites written d) (he' : e'.Rewrites written d) (ha : e.next? a = some a')
    (hb : e'.next? b = some b') : AgreeOff written (some a') (some b') := by
  obtain ⟨x, hx, hxa⟩ := (Model.AgreeOff.refl a).next? he ha
  obtain ⟨y, hy, hyb⟩ := h.next? he' hb
  obtain rfl : x = y := Option.some.inj (hx.symm.trans hy)
  exact hxa.symm.trans hyb

theorem Model.AgreeOff.modelAfter?_same {f : Fqid} {es : List Event} {a' b' : Option Model}
    (h : AgreeOff written a b) (ha : History.modelAfter? f es a = some a')
    (hb : History.modelAfter? f es b = some b') : AgreeOff written a' b' := by
  induction es generalizing a b with
  | nil =>
    cases ha
    cases hb
    exact h
  | cons e es ih =>
    rw [History.modelAfter?] at ha hb
    by_cases heq : e.fqid = f
    · rw [if_pos heq] at ha hb
      obtain ⟨a₁, ha₁, ha⟩ := Option.bind_eq_some_iff.1 ha
      obtain ⟨b₁, hb₁, hb⟩ := Option.bind_eq_some_iff.1 hb
      obtain ⟨d, hd⟩ := e.exists_rewrites written
      exact ih (h.next?_of_rewrites hd hd ha₁ hb₁) ha hb
    · rw [if_neg heq] at ha hb
      exact ih h ha hb

/-- An update of no list changes nothing. -/
theorem Event.eq_of_next?_listUpdate_empty {f : Fqid} {m : Option Model} {m' : Model}
    (h : (Event.listUpdate f ∅ ∅).next? m = some m') : m = some m' := by
  rcases m with _ | ⟨i, _ | _⟩ <;> cases h
  rfl

theorem Event.eq_of_next?_update_of_isEmpty {f : Fqid} {fields : Instance} {m : Option Model}
    {m' : Model} (hempty : fields.isEmpty = true) (h : (Event.update f fields).next? m = some m') :
    m = some m' := by
  rcases m with _ | ⟨i, _ | _⟩ <;> cases h
  rw [Instance.merge_of_isEmpty hempty]

/-- A model agrees with what it becomes by events that change only lists in some fields. -/
theorem Model.agreeOff_of_modelAfter? {f : Fqid} {es : List Event} {b' : Option Model}
    (hes : ∀ e ∈ es, e.fqid = f → e.Rewrites written (.listUpdate f ∅ ∅))
    (hb : History.modelAfter? f es b = some b') : AgreeOff written b b' := by
  refine History.modelAfter?_invariant (P := AgreeOff written b) (fun e he heq m m' hm hnext => ?_)
    (.refl b) hb
  obtain ⟨x, hx, hagree⟩ := (Model.AgreeOff.refl m).next? (hes e he heq) hnext
  rw [Event.eq_of_next?_listUpdate_empty hx] at hm
  exact hm.trans hagree

/-- Events that change no list in some fields are taken by both versions. -/
theorem Model.AgreeOff.modelAfter? {f : Fqid} {es : List Event} {b' : Option Model}
    (h : AgreeOff written a b) (hes : ∀ e ∈ es, e.fqid = f → e.Rewrites written e)
    (hb : History.modelAfter? f es b = some b') :
    ∃ a', History.modelAfter? f es a = some a' ∧ AgreeOff written a' b' := by
  induction es generalizing a b with
  | nil =>
    cases hb
    exact ⟨a, rfl, h⟩
  | cons e es ih =>
    have hrest := fun d hd => hes d (List.mem_cons_of_mem _ hd)
    rw [History.modelAfter?] at hb ⊢
    by_cases heq : e.fqid = f
    · rw [if_pos heq] at hb ⊢
      obtain ⟨b₁, hb₁, hb⟩ := Option.bind_eq_some_iff.1 hb
      obtain ⟨a₁, ha₁, h₁⟩ := h.next? (hes e List.mem_cons_self heq) hb₁
      rw [ha₁]
      exact ih h₁ hrest hb
    · rw [if_neg heq] at hb ⊢
      exact ih h hrest hb

end Versions

end MeetingLedger
