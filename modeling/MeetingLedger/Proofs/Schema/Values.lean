import MeetingLedger.Proofs.Container.Except
import MeetingLedger.Schema.Builder

/-!
# When a value fits a field

A single value has to be of its kind, among the allowed values and within the other constraints. Of
the items of a list only the first two are asked. So lists fit exactly if their items do where the
other constraints ask nothing of allowed values of the kind, and elsewhere a list may hold items that
do not fit by themselves.
-/

namespace MeetingLedger.Schema

theorem FieldType.check_eq_ok_iff {type : FieldType} {v : Json} :
    type.check v = .ok () ↔ type.accepts v = true := by
  rw [check]
  split <;> simp_all

namespace Constraints

/-- What the constraints other than the allowed values ask of a value of a kind. -/
structure Admits (c : Constraints) (s : ScalarType) (v : Json) : Prop where
  minimum : ∀ x, s.numeric? v = some x → ∀ least, c.minimum = some least → x.lt least = false
  maximum : ∀ x, s.numeric? v = some x → ∀ most, c.maximum = some most → most.lt x = false
  maxLength : ∀ text, v = .string text → ∀ most, c.longest s = some most → text.length ≤ most
  minLength : ∀ text, v = .string text → ∀ least, c.minLength = some least → least ≤ text.length
  pattern : ∀ text, v = .string text → ∀ p, c.pattern = some p → p.occursIn text = true
  markup : ∀ text, v = .string text → ∀ policy, s = .html policy →
    Markup.sanitize policy text = .ok text

/-- Nothing is asked of the values of a kind besides being among the allowed values. -/
structure Unbounded (c : Constraints) (s : ScalarType) : Prop where
  minimum : c.minimum = none
  maximum : c.maximum = none
  maxLength : c.longest s = none
  minLength : c.minLength = none
  pattern : c.pattern = none
  markup : ∀ policy, s ≠ .html policy

variable {c : Constraints} {s : ScalarType} {v : Json}

theorem Unbounded.admits (h : c.Unbounded s) (v : Json) : c.Admits s v where
  minimum _ _ least hleast := by simp [h.minimum] at hleast
  maximum _ _ most hmost := by simp [h.maximum] at hmost
  maxLength _ _ most hmost := by simp [h.maxLength] at hmost
  minLength _ _ least hleast := by simp [h.minLength] at hleast
  pattern _ _ p hp := by simp [h.pattern] at hp
  markup _ _ policy hs := absurd hs (h.markup policy)

theorem admits_of_accepts (hs : s = .boolean ∨ s = .json) (hv : s.accepts v = true) :
    c.Admits s v := by
  have htext : ∀ text, v ≠ .string text := by
    rintro text rfl
    rcases hs with rfl | rfl <;> cases hv
  have hnumber : s.numeric? v = none := by
    rcases hs with rfl | rfl <;> rfl
  constructor <;> simp_all

theorem checkRange_eq_ok_iff {x : Real64} : c.checkRange v x = .ok () ↔
    (∀ least, c.minimum = some least → x.lt least = false) ∧
      ∀ most, c.maximum = some most → most.lt x = false := by
  have hleast : c.minimum.filter (x.lt ·) = none ↔
      ∀ least, c.minimum = some least → x.lt least = false := by
    simp [Option.filter_eq_none_iff]
  have hmost : c.maximum.filter (·.lt x) = none ↔
      ∀ most, c.maximum = some most → most.lt x = false := by
    simp [Option.filter_eq_none_iff]
  rw [checkRange, ← hleast, ← hmost]
  cases c.minimum.filter (x.lt ·) <;> cases c.maximum.filter (·.lt x) <;> simp

theorem checkText_eq_ok_iff {text : String} : c.checkText s text = .ok () ↔
    (∀ most, c.longest s = some most → text.length ≤ most) ∧
      (∀ least, c.minLength = some least → least ≤ text.length) ∧
        ∀ p, c.pattern = some p → p.occursIn text = true := by
  have hmost : (c.longest s).filter (· < text.length) = none ↔
      ∀ most, c.longest s = some most → text.length ≤ most := by
    simp [Option.filter_eq_none_iff]
  have hleast : c.minLength.filter (text.length < ·) = none ↔
      ∀ least, c.minLength = some least → least ≤ text.length := by
    simp [Option.filter_eq_none_iff]
  have hpattern : c.pattern.filter (!·.occursIn text) = none ↔
      ∀ p, c.pattern = some p → p.occursIn text = true := by
    simp [Option.filter_eq_none_iff]
  rw [checkText, ← hmost, ← hleast, ← hpattern]
  cases (c.longest s).filter (· < text.length) <;> cases c.minLength.filter (text.length < ·) <;>
    cases c.pattern.filter (!·.occursIn text) <;> simp

end Constraints

theorem checkMarkup_eq_ok_iff {s : ScalarType} {text : String} : checkMarkup s text = .ok () ↔
    ∀ policy, s = .html policy → Markup.sanitize policy text = .ok text := by
  cases s with
  | html policy =>
    rw [checkMarkup]
    cases hout : Markup.sanitize policy text with
    | error e => simp [hout]
    | ok out => by_cases h : out = text <;> simp [hout, h]
  | _ => simp [checkMarkup]

theorem checkScalar_eq_ok_iff {c : Constraints} {s : ScalarType} {v : Json} :
    checkScalar c s v = .ok () ↔ c.Admits s v := by
  have hparts : checkScalar c s v = .ok () ↔
      (∀ x, s.numeric? v = some x → c.checkRange v x = .ok ()) ∧
        ∀ text, v = .string text → c.checkText s text = .ok () ∧ checkMarkup s text = .ok () := by
    cases hx : s.numeric? v <;> cases v <;>
      simp [checkScalar, hx, check_bind_eq_ok_iff]
  simp only [hparts, Constraints.checkRange_eq_ok_iff, Constraints.checkText_eq_ok_iff,
    checkMarkup_eq_ok_iff]
  constructor
  · rintro ⟨hrange, htext⟩
    exact ⟨fun x hx => (hrange x hx).1, fun x hx => (hrange x hx).2,
      fun text h => (htext text h).1.1, fun text h => (htext text h).1.2.1,
      fun text h => (htext text h).1.2.2, fun text h => (htext text h).2⟩
  · intro h
    exact ⟨fun x hx => ⟨h.minimum x hx, h.maximum x hx⟩, fun text ht =>
      ⟨⟨h.maxLength text ht, h.minLength text ht, h.pattern text ht⟩, h.markup text ht⟩⟩

namespace Field

def withType (f : Field) (type : FieldType) : Field := { f with type }

/-- A value is of the type of a field and satisfies its constraints. -/
def Fits (f : Field) (v : Json) : Prop := f.type.check v = .ok () ∧ f.checkConstraints v = .ok ()

theorem validate_eq_ok_iff {f : Field} {v : Json} : f.validate v = .ok () ↔
    (v.isNull = true → f.required = false) ∧ (v.isNull = false → f.Fits v) := by
  rw [validate]
  cases v.isNull with
  | true => cases f.required <;> simp
  | false => simp [check_bind_eq_ok_iff, Fits]

variable {f : Field} {s : ScalarType}

theorem checkConstraints_of_scalar (htype : f.type = .scalar s) (v : Json) :
    f.checkConstraints v =
      if f.constraints.allows v then checkScalar f.constraints s v else .error (.notAllowed v) := by
  cases v <;> simp only [checkConstraints, htype]

theorem fits_scalar_iff {v : Json} : (f.withType (.scalar s)).Fits v ↔
    s.accepts v = true ∧ f.constraints.allows v = true ∧ f.constraints.Admits s v := by
  have hconstraints : (f.withType (.scalar s)).checkConstraints v =
      if f.constraints.allows v then checkScalar f.constraints s v else .error (.notAllowed v) :=
    checkConstraints_of_scalar rfl v
  rw [Fits, FieldType.check_eq_ok_iff, hconstraints, ← checkScalar_eq_ok_iff]
  cases f.constraints.allows v <;> simp [withType, FieldType.accepts]

theorem fits_list_iff {items : List Json} : (f.withType (.array s)).Fits (.array items) ↔
    ∀ v ∈ items, s.accepts v = true ∧ f.constraints.allows v = true := by
  have hconstraints : (f.withType (.array s)).checkConstraints (.array items) = .ok () ↔
      ∀ v ∈ items, f.constraints.allows v = true := by
    have hnone : items.find? (!f.constraints.allows ·) = none ↔
        ∀ v ∈ items, f.constraints.allows v = true := by simp [List.find?_eq_none]
    rw [← hnone]
    simp only [checkConstraints, withType]
    cases items.find? (!f.constraints.allows ·) <;> simp
  rw [Fits, FieldType.check_eq_ok_iff, hconstraints]
  simp [withType, FieldType.accepts, Json.array?, forall_and]

theorem fits_array_iff {v : Json} : (f.withType (.array s)).Fits v ↔ ∃ items, v = .array items ∧
    ∀ item ∈ items, s.accepts item = true ∧ f.constraints.allows item = true := by
  constructor
  · intro h
    have haccepts := FieldType.check_eq_ok_iff.1 h.1
    cases v with
    | array items => exact ⟨items, rfl, fits_list_iff.1 h⟩
    | _ => simp [withType, FieldType.accepts, Json.array?] at haccepts
  · rintro ⟨items, rfl, h⟩
    exact fits_list_iff.2 h

theorem forall_list_fits_iff :
    (∀ items, (f.withType (.array s)).Fits (.array items) ↔
        ∀ item ∈ items, (f.withType (.scalar s)).Fits item) ↔
      ∀ v, s.accepts v = true → f.constraints.allows v = true → f.constraints.Admits s v := by
  simp only [fits_list_iff, fits_scalar_iff]
  constructor
  · intro h v hv hallowed
    -- the list of the one value
    have hone := (h [v]).1 (by simp [hv, hallowed])
    exact (hone v (by simp)).2.2
  · intro h items
    refine forall₂_congr fun item _ => ⟨fun hitem => ?_, fun hitem => ⟨hitem.1, hitem.2.1⟩⟩
    exact ⟨hitem.1, hitem.2, h item hitem.1 hitem.2⟩

/-- A list fits exactly if its items are of the kind and allowed. So it fits exactly if its items fit
by themselves where allowed values of the kind satisfy all constraints, as they do if no other
constraint is declared and the kind has none of its own. -/
theorem fits_as_items (f : Field) (s : ScalarType) :
    (∀ v, (f.withType (.array s)).Fits v ↔ ∃ items, v = .array items ∧
      ∀ item ∈ items, s.accepts item = true ∧ f.constraints.allows item = true) ∧
    ((∀ items, (f.withType (.array s)).Fits (.array items) ↔
        ∀ item ∈ items, (f.withType (.scalar s)).Fits item) ↔
      ∀ v, s.accepts v = true → f.constraints.allows v = true → f.constraints.Admits s v) ∧
    (f.constraints.Unbounded s ∨ s = .boolean ∨ s = .json →
      ∀ items, (f.withType (.array s)).Fits (.array items) ↔
        ∀ item ∈ items, (f.withType (.scalar s)).Fits item) := by
  refine ⟨fun v => fits_array_iff, forall_list_fits_iff, fun h => forall_list_fits_iff.2 ?_⟩
  intro v hv _
  exact h.elim (·.admits v) (Constraints.admits_of_accepts · hv)

/-- A list of short texts may hold a text that is too long for a short text. -/
theorem overlong_fits_in_list :
    let f : Field := { collection := "person", name := "titles", type := .array .string }
    let overlong := Json.string (String.ofList (List.replicate 257 'x'))
    (f.withType (.array .string)).Fits (.array [overlong]) ∧
      ¬ (f.withType (.scalar .string)).Fits overlong := by
  intro f overlong
  constructor
  · exact fits_list_iff.2 (List.forall_mem_singleton.2 ⟨rfl, rfl⟩)
  · intro h
    have hlength := (fits_scalar_iff.1 h).2.2.maxLength _ rfl ScalarType.stringMaxLength rfl
    rw [String.length_ofList, List.length_replicate] at hlength
    exact absurd hlength (by decide)

end Field

end MeetingLedger.Schema
