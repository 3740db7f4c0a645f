import MeetingLedger.Ledger.Codec
import MeetingLedger.Proofs.Container.Except
import MeetingLedger.Proofs.Fqid

/-!
# Logs that were read from JSON

The name of every model in them was read from a text, so that it can be written and read again.
-/

namespace MeetingLedger

namespace Decode

theorem exists_of_once {α : Type} {name : String} {slot o : Option α} {read : Except DecodeError α}
    (h : once name slot read = .ok o) : ∃ a, read = .ok a ∧ o = some a := by
  rw [once] at h
  split at h
  · cases h
  · obtain ⟨a, hread, rfl⟩ := map_eq_ok_iff.1 h
    exact ⟨a, hread, rfl⟩

/-- What every member preserves holds of the draft of a whole record, in either of its forms. -/
theorem record_invariant {δ : Type} {P : δ → Prop} {names : List String}
    {member : δ → String × Json → Except DecodeError δ} {draft next : δ} {v : Json}
    (hmember : ∀ d m d', P d → member d m = .ok d' → P d') (hdraft : P draft)
    (h : record names member draft v = .ok next) : P next := by
  rw [record.eq_def] at h
  split at h
  · exact foldlM_invariant hmember hdraft h
  · obtain ⟨read, hread, h⟩ := bind_eq_ok_iff.1 h
    split at h
    · cases h
      exact foldlM_invariant hmember hdraft hread
    · cases h
  · cases h

theorem isReadable_of_fqid {v : Json} {f : Fqid} (h : fqid v = .ok f) : f.IsReadable := by
  obtain ⟨raw, -, h⟩ := bind_eq_ok_iff.1 h
  split at h
  · rename_i hraw
    cases h
    rwa [Fqid.text_of_parse? hraw] at hraw
  · cases h

theorem eq_some_of_required {α : Type} {name : String} {slot : Option α} {a : α}
    (h : required name slot = .ok a) : slot = some a := by
  cases slot with
  | none => cases h
  | some b => rw [Except.ok.inj h]

theorem fqid_of_assemble {word : EventWord} {f : Fqid} {fields : Option Instance}
    {lists : Option (ListChanges × ListChanges)} {e : Event}
    (h : assemble word f fields lists = .ok e) : e.fqid = f := by
  rw [assemble.eq_def] at h
  split at h <;> cases h <;> rfl

section Events

/-- A draft with a name that can be read, if it has one. -/
def EventDraft.IsReadable (draft : EventDraft) : Prop := ∀ f, draft.fqid = some f → f.IsReadable

theorem isReadable_eventMember (draft : EventDraft) (member : String × Json) (next : EventDraft)
    (hdraft : draft.IsReadable) (h : eventMember draft member = .ok next) : next.IsReadable := by
  rw [eventMember.eq_def] at h
  split at h
  · obtain ⟨w, -, rfl⟩ := map_eq_ok_iff.1 h
    exact hdraft
  · obtain ⟨o, honce, rfl⟩ := map_eq_ok_iff.1 h
    obtain ⟨f, hread, rfl⟩ := exists_of_once honce
    rintro f' hf
    cases hf
    exact isReadable_of_fqid hread
  · obtain ⟨fields, -, rfl⟩ := map_eq_ok_iff.1 h
    exact hdraft
  · obtain ⟨lists, -, rfl⟩ := map_eq_ok_iff.1 h
    exact hdraft
  · cases h
    exact hdraft

theorem isReadable_event (v : Json) (e : Event) (h : event v = .ok e) : e.fqid.IsReadable := by
  obtain ⟨draft, hdraft, h⟩ := bind_eq_ok_iff.1 h
  obtain ⟨word, -, h⟩ := bind_eq_ok_iff.1 h
  obtain ⟨f, hf, h⟩ := bind_eq_ok_iff.1 h
  have hreadable : draft.IsReadable :=
    record_invariant isReadable_eventMember (by rintro _ ⟨⟩) hdraft
  rw [fqid_of_assemble h]
  exact hreadable f (eq_some_of_required hf)

theorem isReadable_events {v : Json} {es : List Event} (h : events v = .ok es) :
    ∀ e ∈ es, e.fqid.IsReadable := by
  obtain ⟨vs, -, h⟩ := bind_eq_ok_iff.1 h
  exact forall_of_mapM isReadable_event h

end Events

section Positions

def PositionDraft.IsReadable (draft : PositionDraft) : Prop :=
  ∀ es, draft.events = some es → ∀ e ∈ es, e.fqid.IsReadable

theorem isReadable_positionMember (draft : PositionDraft) (member : String × Json)
    (next : PositionDraft) (hdraft : draft.IsReadable)
    (h : positionMember draft member = .ok next) : next.IsReadable := by
  rw [positionMember.eq_def] at h
  split at h
  · obtain ⟨number, -, rfl⟩ := map_eq_ok_iff.1 h
    exact hdraft
  · obtain ⟨stamp, -, rfl⟩ := map_eq_ok_iff.1 h
    exact hdraft
  · obtain ⟨user, -, rfl⟩ := map_eq_ok_iff.1 h
    exact hdraft
  · obtain ⟨o, honce, rfl⟩ := map_eq_ok_iff.1 h
    obtain ⟨es, hread, rfl⟩ := exists_of_once honce
    rintro es' hes
    cases hes
    exact isReadable_events hread
  · cases h
    exact hdraft

theorem isReadable_position (v : Json) (p : Position) (h : position v = .ok p) :
    ∀ e ∈ p.events, e.fqid.IsReadable := by
  obtain ⟨draft, hdraft, h⟩ := bind_eq_ok_iff.1 h
  obtain ⟨number, -, h⟩ := bind_eq_ok_iff.1 h
  obtain ⟨stamp, -, h⟩ := bind_eq_ok_iff.1 h
  obtain ⟨es, hes, h⟩ := bind_eq_ok_iff.1 h
  cases h
  have hreadable : draft.IsReadable :=
    record_invariant isReadable_positionMember (by rintro _ ⟨⟩) hdraft
  exact hreadable es (eq_some_of_required hes)

theorem isReadable_positions {v : Json} {ps : List Position} (h : positions v = .ok ps) :
    ∀ p ∈ ps, ∀ e ∈ p.events, e.fqid.IsReadable := by
  obtain ⟨vs, -, h⟩ := bind_eq_ok_iff.1 h
  exact forall_of_mapM isReadable_position h

end Positions

def LogDraft.IsReadable (draft : LogDraft) : Prop :=
  ∀ ps, draft.positions = some ps → ∀ p ∈ ps, ∀ e ∈ p.events, e.fqid.IsReadable

theorem isReadable_logMember (draft : LogDraft) (member : String × Json) (next : LogDraft)
    (hdraft : draft.IsReadable) (h : logMember draft member = .ok next) : next.IsReadable := by
  rw [logMember.eq_def] at h
  split at h
  · obtain ⟨index, -, rfl⟩ := map_eq_ok_iff.1 h
    exact hdraft
  · obtain ⟨o, honce, rfl⟩ := map_eq_ok_iff.1 h
    obtain ⟨ps, hread, rfl⟩ := exists_of_once honce
    rintro ps' hps
    cases hps
    exact isReadable_positions hread
  · cases h
    exact hdraft

theorem isReadable_log {v : Json} {log : EventLog} (h : Decode.log v = .ok log) :
    ∀ p ∈ log.positions, ∀ e ∈ p.events, e.fqid.IsReadable := by
  obtain ⟨draft, hdraft, h⟩ := bind_eq_ok_iff.1 h
  obtain ⟨index, -, h⟩ := bind_eq_ok_iff.1 h
  obtain ⟨ps, hps, h⟩ := bind_eq_ok_iff.1 h
  cases h
  have hreadable : draft.IsReadable :=
    record_invariant isReadable_logMember (by rintro _ ⟨⟩) hdraft
  exact hreadable ps (eq_some_of_required hps)

end Decode

theorem Event.fqid_sorted (e : Event) : e.sorted.fqid = e.fqid := by
  cases e <;> rfl

/-- The names of all models in a log that was read from a text can be read. -/
theorem EventLog.isReadable_of_ofText? {text : String} {log : EventLog}
    (h : ofText? text = some log) : ∀ p ∈ log.positions, ∀ e ∈ p.events, e.fqid.IsReadable := by
  obtain ⟨v, -, h⟩ := Option.bind_eq_some_iff.1 h
  obtain ⟨read, hread, h⟩ := Option.bind_eq_some_iff.1 h
  obtain rfl := Option.some.inj h
  intro p hp e he
  obtain ⟨q, hq, rfl⟩ := List.mem_map.1 hp
  obtain ⟨d, hd, rfl⟩ := List.mem_map.1 he
  rw [Event.fqid_sorted]
  cases hlog : Decode.log v with
  | error problem => simp [hlog, Except.toOption] at hread
  | ok read' =>
    obtain rfl : read' = read := by simpa [hlog, Except.toOption] using hread
    exact Decode.isReadable_log hlog q hq d hd

end MeetingLedger
