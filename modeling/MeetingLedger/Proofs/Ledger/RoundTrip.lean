import MeetingLedger.Proofs.Container.Lookup
import MeetingLedger.Proofs.Ledger.Decoded

/-!
# Logs and their JSON form

What is written for a log is read back as this log as long as every model in it has a name that
can be read, and in a log that was read every model has one.
-/

namespace MeetingLedger

namespace Decode

section Values

@[simp] theorem members_object (ms : List (String × Json)) : members (.object ms) = .ok ms := rfl

@[simp] theorem record_object {δ : Type} (names : List String)
    (member : δ → String × Json → Except DecodeError δ) (draft : δ) (ms : List (String × Json)) :
    record names member draft (.object ms) = ms.foldlM member draft := rfl

@[simp] theorem items_array (vs : List Json) : items (.array vs) = .ok vs := rfl

@[simp] theorem word_ofUInt64 (n : UInt64) : word (.ofUInt64 n) = .ok n := by
  simp [word, orMismatch]

theorem fields_ofMap (i : Instance) : fields (.ofMap i) = .ok i := by
  simp [fields, Json.ofMap, Except.map]

theorem changes_toJson (c : ListChanges) : changes c.toJson = .ok c := by
  have hread : (c.entries.map fun e => (e.1, Json.array e.2)).mapM
      (fun m => (items m.2).map (m.1, ·)) = .ok c.entries :=
    mapM_map_eq_ok fun e _ => by simp [Except.map]
  change ((c.entries.map fun e => (e.1, Json.array e.2)).mapM
    fun m => (items m.2).map (m.1, ·)).map SortedMap.ofList = .ok c
  rw [hread, Except.map, SortedMap.ofList_entries]

theorem fqid_text {f : Fqid} (h : f.IsReadable) : fqid (.string f.text) = .ok f := by
  have hparse : Fqid.parse? f.text = some f := h
  simp [fqid, orMismatch, Json.string?, hparse, ok_bind]

theorem ofJson?_text (w : EventWord) : EventWord.ofJson? (.string w.text) = some w := by
  cases w <;> rfl

theorem nullable_of_ne_null {α : Type} {read : Json → Except DecodeError α} {v : Json} {a : α}
    (hv : v ≠ .null) (h : read v = .ok a) : nullable read v = .ok (some a) := by
  cases v <;> simp_all [nullable, Except.map]

theorem once_none {α : Type} {name : String} {slot : Option α} {read : Except DecodeError α} {a : α}
    (hslot : slot = none) (h : read = .ok a) : once name slot read = .ok (some a) := by
  simp [once, hslot, h, Except.map]

end Values

section Lists

def listPart (key : String) (changes : ListChanges) : List (String × Json) :=
  if changes.isEmpty then [] else [(key, changes.toJson)]

theorem exists_foldlM_listPart {key : String} {d : ListDraft} (changes : ListChanges)
    (set : Option ListChanges → ListDraft) (hnone : set none = d)
    (hsome : listMember d (key, changes.toJson) = .ok (set (some changes))) :
    ∃ slot, (listPart key changes).foldlM listMember d = .ok (set slot) ∧
      slot.getD ∅ = changes := by
  by_cases hempty : changes.isEmpty = true
  · refine ⟨none, by simp [listPart, hempty, hnone, pure, Except.pure], ?_⟩
    apply SortedMap.ext_entries
    exact (List.isEmpty_iff.1 hempty).symm
  · exact ⟨some changes, by simp [listPart, hempty, hsome], rfl⟩

theorem listFields_parts (add remove : ListChanges) :
    listFields (.object (listPart "add" add ++ listPart "remove" remove)) = .ok (add, remove) := by
  have hadded : listMember {} ("add", add.toJson) = .ok { add := some add } := by
    simp [listMember, once_none, changes_toJson, Except.map]
  obtain ⟨a, hadd, ha⟩ := exists_foldlM_listPart add (fun a => { add := a }) rfl hadded
  have hremoved : listMember { add := a } ("remove", remove.toJson) =
      .ok { add := a, remove := some remove } := by
    simp [listMember, once_none, changes_toJson, Except.map]
  obtain ⟨r, hremove, hr⟩ :=
    exists_foldlM_listPart remove (fun r => { add := a, remove := r }) rfl hremoved
  simp [listFields, List.foldlM_append, hadd, hremove, ha, hr, ok_bind]

end Lists

section Events

variable {d : EventDraft}

theorem eventMember_type (h : d.word = none) (w : EventWord) :
    eventMember d ("type", .string w.text) = .ok { d with word := some w } := by
  simp [eventMember, once_none h, ofJson?_text, orMismatch, Except.map]

theorem eventMember_fqid (h : d.fqid = none) {f : Fqid} (hf : f.IsReadable) :
    eventMember d ("fqid", .string f.text) = .ok { d with fqid := some f } := by
  simp [eventMember, once_none h (fqid_text hf), Except.map]

theorem eventMember_fields (h : d.fields = none) (i : Instance) :
    eventMember d ("fields", .ofMap i) = .ok { d with fields := some (some i) } := by
  have hread : nullable fields (.ofMap i) = .ok (some i) := by
    apply nullable_of_ne_null
    · simp [Json.ofMap]
    · exact fields_ofMap i
  simp [eventMember, once_none h hread, Except.map]

theorem eventMember_listFields (h : d.lists = none) (add remove : ListChanges) :
    eventMember d ("list_fields", .object (listPart "add" add ++ listPart "remove" remove)) =
      .ok { d with lists := some (some (add, remove)) } := by
  have hread : nullable listFields (.object (listPart "add" add ++ listPart "remove" remove)) =
      .ok (some (add, remove)) := by
    apply nullable_of_ne_null
    · simp
    · exact listFields_parts add remove
  simp [eventMember, once_none h hread, Except.map]

theorem event_object {ms : List (String × Json)} {w : EventWord} {f : Fqid} {e : Event}
    (hword : d.word = some w) (hfqid : d.fqid = some f)
    (hread : assemble w f (d.fields.getD none) (d.lists.getD none) = .ok e)
    (h : ms.foldlM eventMember {} = .ok d) : event (.object ms) = .ok e := by
  simp [event, h, hword, hfqid, required, hread, ok_bind]

/-- A kind of event is told from the others by its word and its payload: an update of lists
carries its changes even if there are none, and any other update carries fields. -/
theorem event_toJson {e : Event} (h : e.fqid.IsReadable) : event e.toJson = .ok e := by
  rw [Event.toJson.eq_def]
  cases e with
  | create f fields =>
    apply event_object (d := ⟨some .create, some f, some (some fields), none⟩) rfl rfl rfl
    rw [foldlM_cons_of_ok (eventMember_fields rfl fields), foldlM_cons_of_ok (eventMember_fqid rfl h),
      foldlM_cons_of_ok (eventMember_type rfl .create)]
    rfl
  | update f fields =>
    apply event_object (d := ⟨some .update, some f, some (some fields), none⟩) rfl rfl rfl
    rw [foldlM_cons_of_ok (eventMember_fields rfl fields), foldlM_cons_of_ok (eventMember_fqid rfl h),
      foldlM_cons_of_ok (eventMember_type rfl .update)]
    rfl
  | listUpdate f add remove =>
    apply event_object (d := ⟨some .update, some f, none, some (some (add, remove))⟩) rfl rfl rfl
    change [("fqid", .string (Event.listUpdate f add remove).fqid.text),
      ("list_fields", .object (listPart "add" add ++ listPart "remove" remove)),
      ("type", .string EventWord.update.text)].foldlM eventMember {} = _
    rw [foldlM_cons_of_ok (eventMember_fqid rfl h),
      foldlM_cons_of_ok (eventMember_listFields rfl add remove),
      foldlM_cons_of_ok (eventMember_type rfl .update)]
    rfl
  | delete f =>
    apply event_object (d := ⟨some .delete, some f, none, none⟩) rfl rfl rfl
    rw [foldlM_cons_of_ok (eventMember_fqid rfl h), foldlM_cons_of_ok (eventMember_type rfl .delete)]
    rfl
  | restore f =>
    apply event_object (d := ⟨some .restore, some f, none, none⟩) rfl rfl rfl
    rw [foldlM_cons_of_ok (eventMember_fqid rfl h), foldlM_cons_of_ok (eventMember_type rfl .restore)]
    rfl

end Events

section Positions

theorem events_toJson {es : List Event} (h : ∀ e ∈ es, e.fqid.IsReadable) :
    events (.array (es.map Event.toJson)) = .ok es :=
  mapM_map_eq_ok fun e he => event_toJson (h e he)

theorem exists_foldlM_user {d : PositionDraft} (h : d.userId = none) (user : Option UInt64) :
    ∃ slot, ((user.map fun u => ("user_id", Json.ofUInt64 u)).toList).foldlM positionMember d =
      .ok { d with userId := slot } ∧ slot.getD none = user := by
  cases user with
  | none => exact ⟨none, by simp [← h, pure, Except.pure], rfl⟩
  | some u =>
    have hread : nullable word (.ofUInt64 u) = .ok (some u) := by
      apply nullable_of_ne_null
      · simp [Json.ofUInt64]
      · exact word_ofUInt64 u
    exact ⟨some (some u), by simp [positionMember, once_none h hread, Except.map], rfl⟩

theorem position_toJson {p : Position} (h : ∀ e ∈ p.events, e.fqid.IsReadable) :
    position p.toJson = .ok p := by
  have hevents : positionMember {} ("events", .array (p.events.map Event.toJson)) =
      .ok { events := some p.events } := by
    simp [positionMember, once_none, events_toJson h, Except.map]
  have hnumber : positionMember { events := some p.events } ("position", .ofUInt64 p.position) =
      .ok { position := some p.position, events := some p.events } := by
    simp [positionMember, once_none, Except.map]
  have hstamp : positionMember { position := some p.position, events := some p.events }
      ("timestamp", .ofInt64 p.timestamp) =
      .ok ⟨some p.position, some p.timestamp, none, some p.events⟩ := by
    simp [positionMember, once_none, orMismatch, Except.map]
  obtain ⟨user, huser, hslot⟩ := exists_foldlM_user
    (d := ⟨some p.position, some p.timestamp, none, some p.events⟩) rfl p.userId
  simp only [position, Position.toJson, record_object, ok_bind, List.cons_append, List.nil_append,
    foldlM_cons_of_ok hevents, foldlM_cons_of_ok hnumber, foldlM_cons_of_ok hstamp, huser, hslot,
    required]

theorem positions_toJson {ps : List Position}
    (h : ∀ p ∈ ps, ∀ e ∈ p.events, e.fqid.IsReadable) :
    positions (.array (ps.map Position.toJson)) = .ok ps :=
  mapM_map_eq_ok fun p hp => position_toJson (h p hp)

end Positions

theorem log_toJson {log : EventLog} (h : ∀ p ∈ log.positions, ∀ e ∈ p.events, e.fqid.IsReadable) :
    Decode.log log.toJson = .ok log := by
  have hindex : logMember {} ("migration_index", .ofUInt64 log.migrationIndex) =
      .ok { migrationIndex := some log.migrationIndex } := by
    simp [logMember, once_none, Except.map]
  have hpositions : logMember { migrationIndex := some log.migrationIndex }
      ("positions", .array (log.positions.map Position.toJson)) =
      .ok ⟨some log.migrationIndex, some log.positions⟩ := by
    simp [logMember, once_none, positions_toJson h, Except.map]
  simp only [Decode.log, EventLog.toJson, record_object, ok_bind, foldlM_cons_of_ok hindex,
    foldlM_cons_of_ok hpositions, List.foldlM_nil, pure, Except.pure, required]

end Decode

namespace EventLog

/-- A log is read back from its JSON form if and only if each of its models has the name of a
collection and a positive id, and every log that was read at all is read back. -/
theorem written_log_is_read_back :
    (∀ log : EventLog, ofJson log.toJson = .ok log ↔ ∀ p ∈ log.positions, ∀ e ∈ p.events,
      isCollectionName e.fqid.collection = true ∧ 0 < e.fqid.id) ∧
    ∀ (v : Json) (log : EventLog), ofJson v = .ok log → ofJson log.toJson = .ok log := by
  have hreadable (log : EventLog) : ofJson log.toJson = .ok log ↔
      ∀ p ∈ log.positions, ∀ e ∈ p.events, e.fqid.IsReadable :=
    ⟨Decode.isReadable_log, Decode.log_toJson⟩
  constructor
  · intro log
    simp only [hreadable, Fqid.isReadable_iff]
  · intro v log h
    rw [hreadable]
    exact Decode.isReadable_log h

/-- A log with an event of each kind, of which the update of lists changes nothing. -/
def everyKind : EventLog where
  migrationIndex := 73
  positions :=
    [⟨1, 1700000000, some 4, [.create ⟨"user", 1⟩ ∅, .update ⟨"user", 1⟩ ∅]⟩,
      ⟨2, -1, none, [.listUpdate ⟨"user", 1⟩ ∅ ∅, .delete ⟨"user", 1⟩, .restore ⟨"user", 1⟩]⟩]

theorem ofJson_everyKind :
    (∀ p ∈ everyKind.positions, ∀ e ∈ p.events,
      isCollectionName e.fqid.collection = true ∧ 0 < e.fqid.id) ∧
    ofJson everyKind.toJson = .ok everyKind := by
  have hnames : ∀ p ∈ everyKind.positions, ∀ e ∈ p.events,
      isCollectionName e.fqid.collection = true ∧ 0 < e.fqid.id := by decide
  have hread := (written_log_is_read_back.1 everyKind).2 hnames
  exact ⟨hnames, written_log_is_read_back.2 everyKind.toJson everyKind hread⟩

end EventLog

end MeetingLedger
