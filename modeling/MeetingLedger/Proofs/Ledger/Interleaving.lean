import MeetingLedger.Proofs.Ledger.ModelView

/-!
# Interleavings of the events of several models

The events of different models may be interleaved in any way. Events apply in one order exactly if
they apply in every other one that keeps the events of each model in order, and they leave the same
history.
-/

namespace MeetingLedger

/-- The events of one model, in their order. -/
def eventsOf (f : Fqid) (es : List Event) : List Event := es.filter fun e => decide (e.fqid = f)

theorem eventsOf_cons (f : Fqid) (e : Event) (es : List Event) :
    eventsOf f (e :: es) = if e.fqid = f then e :: eventsOf f es else eventsOf f es := by
  simp only [eventsOf, List.filter_cons, decide_eq_true_eq]

namespace History

/-- What events make of a model is up to the events of this model. -/
theorem modelAfter?_eventsOf (f : Fqid) (es : List Event) (m : Option Model) :
    modelAfter? f (eventsOf f es) m = modelAfter? f es m := by
  induction es generalizing m with
  | nil => rfl
  | cons e es ih =>
    rw [eventsOf_cons, modelAfter?]
    by_cases hf : e.fqid = f
    · rw [if_pos hf, if_pos hf, modelAfter?, if_pos hf]
      cases e.next? m with
      | none => rfl
      | some m' => exact ih (some m')
    · rw [if_neg hf, if_neg hf]
      exact ih m

/-- A history after events is the one in which every model is what its events make of it. -/
theorem applyAll_eq_iff {h h' : History} {es : List Event} :
    h.applyAll es = ⟨h', none⟩ ↔
      ∀ f, modelAfter? f es (h.models.get? f) = some (h'.models.get? f) := by
  constructor
  · exact modelAfter?_of_applyAll
  · intro hall
    obtain ⟨h'', hdone⟩ : ∃ h'', h.applyAll es = ⟨h'', none⟩ :=
      applyAll_of_modelAfter? fun f => by
        rw [hall f]
        rfl
    have hmodels : h''.models = h'.models := SortedMap.ext_get? fun f => by
      have hf := modelAfter?_of_applyAll hdone f
      rw [hall f] at hf
      exact (Option.some.inj hf).symm
    rw [hdone, show h'' = h' from congrArg History.mk hmodels]

theorem refusal_eq_none_iff {h : History} {es : List Event} :
    (h.applyAll es).refusal = none ↔ ∃ h', h.applyAll es = ⟨h', none⟩ := by
  constructor
  · intro hdone
    exact ⟨(h.applyAll es).history, congrArg (Attempt.mk _) hdone⟩
  · rintro ⟨h', hdone⟩
    rw [hdone]

/-- Events apply however the events of different models are interleaved, or not at all, and the
history that they leave is the same. -/
theorem applyAll_of_interleaved (h : History) {es es' : List Event}
    (hsame : ∀ f, eventsOf f es = eventsOf f es') :
    ((h.applyAll es).refusal = none ↔ (h.applyAll es').refusal = none) ∧
      ((h.applyAll es).refusal = none →
        (h.applyAll es).history = (h.applyAll es').history) := by
  have hiff (h' : History) : h.applyAll es = ⟨h', none⟩ ↔ h.applyAll es' = ⟨h', none⟩ := by
    rw [applyAll_eq_iff, applyAll_eq_iff]
    refine forall_congr' fun f => ?_
    rw [← modelAfter?_eventsOf f es, hsame f, modelAfter?_eventsOf]
  constructor
  · rw [refusal_eq_none_iff, refusal_eq_none_iff]
    exact exists_congr hiff
  · intro hdone
    obtain ⟨h', hdone⟩ := refusal_eq_none_iff.1 hdone
    rw [hdone, (hiff h').1 hdone]

/-- Two topics, one of which is deleted and restored. -/
def topicEvents : List Event :=
  [.create ⟨"topic", 1⟩ ∅, .delete ⟨"topic", 1⟩, .restore ⟨"topic", 1⟩, .create ⟨"topic", 2⟩ ∅]

def interleavedTopicEvents : List Event :=
  [.create ⟨"topic", 1⟩ ∅, .create ⟨"topic", 2⟩ ∅, .delete ⟨"topic", 1⟩, .restore ⟨"topic", 1⟩]

theorem applyAll_of_interleaved_topics :
    (∀ f, eventsOf f topicEvents = eventsOf f interleavedTopicEvents) ∧
      (empty.applyAll topicEvents).refusal = none ∧
      (empty.applyAll interleavedTopicEvents).refusal = none ∧
      (empty.applyAll topicEvents).history = (empty.applyAll interleavedTopicEvents).history := by
  have hsame (f : Fqid) : eventsOf f topicEvents = eventsOf f interleavedTopicEvents := by
    by_cases hf : (⟨"topic", 1⟩ : Fqid) = f
    · subst hf
      rfl
    · simp [eventsOf, topicEvents, interleavedTopicEvents, Event.fqid, List.filter_cons, hf]
  have hdone : (empty.applyAll topicEvents).refusal = none := by decide +kernel
  have hall := applyAll_of_interleaved empty hsame
  exact ⟨hsame, hdone, hall.1.1 hdone, hall.2 hdone⟩

end History

end MeetingLedger
