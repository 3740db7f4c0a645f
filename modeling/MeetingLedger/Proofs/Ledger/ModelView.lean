import MeetingLedger.Proofs.Ledger.Fields

/-!
# Replay of a single model

An event looks at the model that it names and at no other one, so events apply to a history exactly
if the events of each model apply to that model, and then every model is what its own events make of
it.
-/

namespace MeetingLedger

/-- The model that an event leaves where it finds another one or none; nothing if the event is
refused. -/
def Event.next? : Event → Option Model → Option Model
  | .create f fields, none => some ⟨History.created f fields, false⟩
  | .update _ fields, some ⟨i, false⟩ => some ⟨i.merge fields, false⟩
  | .listUpdate _ add remove, some ⟨i, false⟩ =>
    if (i.changeLists add remove).2.isNone then some ⟨(i.changeLists add remove).1, false⟩ else none
  | .delete _, some ⟨i, false⟩ => some ⟨i, true⟩
  | .restore _, some ⟨i, true⟩ => some ⟨i, false⟩
  | _, _ => none

def Event.isDeletion : Event → Bool
  | .delete _ => true
  | _ => false

theorem Event.deleted_of_next? {e : Event} {m : Option Model} {m' : Model}
    (h : e.next? m = some m') : m'.deleted = e.isDeletion := by
  cases e <;> rcases m with _ | ⟨i, _ | _⟩ <;> simp [next?] at h <;> grind [isDeletion]

namespace History

theorem apply_eq_iff {h h' : History} {e : Event} :
    h.apply e = ⟨h', none⟩ ↔
      ∃ m, e.next? (h.models.get? e.fqid) = some m ∧ h' = ⟨h.models.insert e.fqid m⟩ := by
  cases e with
  | create f fields =>
    rw [apply, Event.fqid]
    by_cases hf : h.models.contains f = true
    · obtain ⟨m, hm⟩ := Option.isSome_iff_exists.1 hf
      simp [hf, hm, Event.next?]
    · have hm : h.models.get? f = none := by simpa [SortedMap.contains] using hf
      simp [hf, hm, Event.next?, put, eq_comm (a := h')]
  | update f fields =>
    simp only [apply, get?, Event.fqid]
    rcases hf : h.models.get? f with _ | ⟨i, _ | _⟩ <;>
      simp [Event.next?, put, eq_comm (a := h')]
  | listUpdate f add remove =>
    simp only [apply, get?, Event.fqid]
    rcases hf : h.models.get? f with _ | ⟨i, _ | _⟩
    · simp [Event.next?]
    · cases hc : i.changeLists add remove with
      | mk i' failed => cases failed <;> simp [Event.next?, hc, put, eq_comm (a := h')]
    · simp [Event.next?]
  | delete f =>
    simp only [apply, get?, Event.fqid]
    rcases hf : h.models.get? f with _ | ⟨i, _ | _⟩ <;>
      simp [Event.next?, put, eq_comm (a := h')]
  | restore f =>
    simp only [apply, Event.fqid]
    rcases hf : h.models.get? f with _ | ⟨i, _ | _⟩ <;>
      simp [Event.next?, put, eq_comm (a := h')]

theorem applyAll_cons_eq_iff {h h' : History} {e : Event} {es : List Event} :
    h.applyAll (e :: es) = ⟨h', none⟩ ↔
      ∃ m, e.next? (h.models.get? e.fqid) = some m ∧
        History.applyAll ⟨h.models.insert e.fqid m⟩ es = ⟨h', none⟩ := by
  rw [applyAll]
  constructor
  · intro hall
    split at hall
    · rename_i h₁ happly
      obtain ⟨m, hm, rfl⟩ := apply_eq_iff.1 happly
      exact ⟨m, hm, hall⟩
    · rename_i hrefused
      exact absurd hall (hrefused h')
  · rintro ⟨m, hm, hall⟩
    rw [apply_eq_iff.2 ⟨m, hm, rfl⟩]
    exact hall

theorem applyAll_append (h : History) (es es' : List Event) :
    h.applyAll (es ++ es') =
      match h.applyAll es with
      | ⟨h₁, none⟩ => h₁.applyAll es'
      | refused => refused := by
  induction es generalizing h with
  | nil => rfl
  | cons e es ih =>
    rw [List.cons_append, applyAll, applyAll]
    rcases h.apply e with ⟨h₁, _ | refusal⟩
    · exact ih h₁
    · rfl

theorem applyAll_append_eq_iff {h h' : History} {es es' : List Event} :
    h.applyAll (es ++ es') = ⟨h', none⟩ ↔
      ∃ h₁, h.applyAll es = ⟨h₁, none⟩ ∧ h₁.applyAll es' = ⟨h', none⟩ := by
  induction es generalizing h with
  | nil => simp [applyAll]
  | cons e es ih =>
    rw [List.cons_append, applyAll_cons_eq_iff]
    constructor
    · rintro ⟨m, hm, hrest⟩
      obtain ⟨h₁, hes, hes'⟩ := ih.1 hrest
      exact ⟨h₁, applyAll_cons_eq_iff.2 ⟨m, hm, hes⟩, hes'⟩
    · rintro ⟨h₁, hes, hes'⟩
      obtain ⟨m, hm, hrest⟩ := applyAll_cons_eq_iff.1 hes
      exact ⟨m, hm, ih.2 ⟨h₁, hrest, hes'⟩⟩

/-- What some events make of the model with a given name; nothing if one of its events is
refused. -/
def modelAfter? (f : Fqid) : List Event → Option Model → Option (Option Model)
  | [], m => some m
  | e :: es, m =>
    if e.fqid = f then (e.next? m).bind fun m => modelAfter? f es (some m)
    else modelAfter? f es m

theorem modelAfter?_singleton (e : Event) (m : Option Model) :
    modelAfter? e.fqid [e] m = (e.next? m).map some := by
  rw [modelAfter?, if_pos rfl]
  cases e.next? m <;> rfl

/-- After events that apply, every model is what its own events make of it. -/
theorem modelAfter?_of_applyAll {h h' : History} {es : List Event}
    (hall : h.applyAll es = ⟨h', none⟩) (f : Fqid) :
    modelAfter? f es (h.models.get? f) = some (h'.models.get? f) := by
  induction es generalizing h with
  | nil =>
    cases hall
    rfl
  | cons e es ih =>
    obtain ⟨m, hm, hrest⟩ := applyAll_cons_eq_iff.1 hall
    have hafter := ih hrest
    rw [modelAfter?]
    by_cases hf : e.fqid = f
    · subst hf
      simpa [hm] using hafter
    · simpa [hf, SortedMap.get?_insert_of_ne _ (Ne.symm hf)] using hafter

/-- Events apply if those of each model apply to it. -/
theorem applyAll_of_modelAfter? {h : History} {es : List Event}
    (hall : ∀ f, (modelAfter? f es (h.models.get? f)).isSome) :
    ∃ h', h.applyAll es = ⟨h', none⟩ := by
  induction es generalizing h with
  | nil => exact ⟨h, rfl⟩
  | cons e es ih =>
    have hhead := hall e.fqid
    rw [modelAfter?, if_pos rfl] at hhead
    cases hm : e.next? (h.models.get? e.fqid) with
    | none => simp [hm] at hhead
    | some m =>
      obtain ⟨h', hrest⟩ := ih (h := ⟨h.models.insert e.fqid m⟩) fun f => by
        have hf := hall f
        rw [modelAfter?] at hf
        by_cases heq : e.fqid = f
        · subst heq
          simpa [hm] using hf
        · simpa [heq, SortedMap.get?_insert_of_ne _ (Ne.symm heq)] using hf
      exact ⟨h', applyAll_cons_eq_iff.2 ⟨m, hm, hrest⟩⟩

theorem modelAfter?_append (f : Fqid) (es es' : List Event) (m : Option Model) :
    modelAfter? f (es ++ es') m = (modelAfter? f es m).bind (modelAfter? f es') := by
  induction es generalizing m with
  | nil => rfl
  | cons e es ih =>
    rw [List.cons_append, modelAfter?, modelAfter?]
    split
    · cases e.next? m with
      | none => rfl
      | some m => exact ih (some m)
    · exact ih m

theorem modelAfter?_of_forall_ne {f : Fqid} {es : List Event} (h : ∀ e ∈ es, e.fqid ≠ f)
    (m : Option Model) : modelAfter? f es m = some m := by
  induction es with
  | nil => rfl
  | cons e es ih =>
    rw [modelAfter?, if_neg (h e List.mem_cons_self)]
    exact ih fun d hd => h d (List.mem_cons_of_mem _ hd)

/-- What every event of a model keeps is kept by all its events. -/
theorem modelAfter?_invariant {P : Option Model → Prop} {f : Fqid} {es : List Event}
    {m m' : Option Model}
    (step : ∀ e ∈ es, e.fqid = f → ∀ m m', P m → e.next? m = some m' → P (some m')) (start : P m)
    (hm : modelAfter? f es m = some m') : P m' := by
  induction es generalizing m with
  | nil =>
    cases hm
    exact start
  | cons e es ih =>
    have hrest := fun d hd => step d (List.mem_cons_of_mem _ hd)
    rw [modelAfter?] at hm
    by_cases heq : e.fqid = f
    · rw [if_pos heq] at hm
      obtain ⟨m₁, hm₁, hm⟩ := Option.bind_eq_some_iff.1 hm
      exact ih hrest (step e List.mem_cons_self heq m m₁ start hm₁) hm
    · rw [if_neg heq] at hm
      exact ih hrest start hm

/-- Events read off the entries of a map, each about a model of its own, change a model by the
event of its key. -/
theorem modelAfter?_filterMap {κ α : Type} [Ord κ] [DecidableEq κ] [Std.TransOrd κ]
    [Std.LawfulEqOrd κ] {name : κ → Fqid} {event? : κ → α → Option Event}
    (hname : ∀ k a e, event? k a = some e → e.fqid = name k) (hinj : Function.Injective name)
    (m : SortedMap κ α) (k : κ) (model : Option Model) :
    modelAfter? (name k) (m.entries.filterMap fun e => event? e.1 e.2) model =
      ((m.get? k).bind (event? k)).elim (some model) fun e => (e.next? model).map some := by
  have hother : ∀ es : List (κ × α), (∀ e ∈ es, e.1 ≠ k) →
      ∀ d ∈ es.filterMap fun e => event? e.1 e.2, d.fqid ≠ name k := by
    intro es hne d hd
    obtain ⟨e, he, hevent⟩ := List.mem_filterMap.1 hd
    rw [hname _ _ _ hevent]
    exact fun heq => hne e he (hinj heq)
  cases hget : m.get? k with
  | none =>
    refine modelAfter?_of_forall_ne (hother _ fun e he hk => ?_) model
    rw [← hk, SortedMap.mem_entries_iff.1 he] at hget
    cases hget
  | some a =>
    obtain ⟨before, after, hsplit⟩ := List.append_of_mem (SortedMap.mem_entries_iff.2 hget)
    have hascending := m.ascending
    rw [hsplit] at hascending
    obtain ⟨-, hafter, hbefore⟩ := List.pairwise_append.1 hascending
    have hne : ∀ e ∈ before, e.1 ≠ k := fun e he hk => by
      have hlt := hbefore e he _ List.mem_cons_self
      simp [hk] at hlt
    have hne' : ∀ e ∈ after, e.1 ≠ k := fun e he hk => by
      have hlt := (List.pairwise_cons.1 hafter).1 e he
      simp [hk] at hlt
    rw [hsplit, List.filterMap_append, modelAfter?_append,
      modelAfter?_of_forall_ne (hother _ hne), Option.bind_some, List.filterMap_cons]
    simp only [Option.bind_some]
    cases hevent : event? k a with
    | none => exact modelAfter?_of_forall_ne (hother _ hne') model
    | some e =>
      simp only [Option.elim_some]
      rw [modelAfter?, if_pos (hname _ _ _ hevent)]
      cases e.next? model with
      | none => rfl
      | some m' => exact modelAfter?_of_forall_ne (hother _ hne') _

end History

end MeetingLedger
