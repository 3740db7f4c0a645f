import MeetingLedger.Json.Basic

/-!
# Equality of JSON values

Values that are the same need not be equal, since both zeros are the same number, but whatever is
the same as one of two values that are the same is the same as the other.
-/

namespace MeetingLedger

theorem Number.same_self (n : Number) : n.same n = true := by
  cases n <;> simp [same]

theorem Number.same_of_same {n a b : Number} (ha : n.same a = true) (hb : n.same b = true) :
    a.same b = true := by
  cases n <;> cases a <;> cases b <;> simp_all [same]

namespace Json

mutual

theorem same_self : ∀ v : Json, same v v = true
  | null => rfl
  | boolean b => beq_self_eq_true b
  | number n => n.same_self
  | string s => beq_self_eq_true s
  | array items => sameItems_self items
  | object members => sameMembers_self members

theorem sameItems_self : ∀ vs : List Json, sameItems vs vs = true
  | [] => rfl
  | v :: vs => by rw [sameItems, same_self v, sameItems_self vs, Bool.and_self]

theorem sameMembers_self : ∀ ms : List (String × Json), sameMembers ms ms = true
  | [] => rfl
  | (k, v) :: ms => by
    rw [sameMembers, same_self v, sameMembers_self ms, beq_self_eq_true, Bool.and_self, Bool.and_self]

end

mutual

theorem same_of_same : ∀ (v : Json) {a b : Json}, same v a = true → same v b = true →
    same a b = true
  | null, a, _, ha, hb => by
    cases a with
    | null => exact hb
    | _ => cases ha
  | boolean _, a, _, ha, hb => by
    cases a with
    | boolean _ => rwa [beq_iff_eq.1 ha] at hb
    | _ => cases ha
  | number _, a, b, ha, hb => by
    cases a with
    | number _ =>
      cases b with
      | number _ => exact Number.same_of_same ha hb
      | _ => cases hb
    | _ => cases ha
  | string _, a, _, ha, hb => by
    cases a with
    | string _ => rwa [beq_iff_eq.1 ha] at hb
    | _ => cases ha
  | array vs, a, b, ha, hb => by
    cases a with
    | array _ =>
      cases b with
      | array _ => exact sameItems_of_same vs ha hb
      | _ => cases hb
    | _ => cases ha
  | object vs, a, b, ha, hb => by
    cases a with
    | object _ =>
      cases b with
      | object _ => exact sameMembers_of_same vs ha hb
      | _ => cases hb
    | _ => cases ha

theorem sameItems_of_same : ∀ (vs : List Json) {as bs : List Json}, sameItems vs as = true →
    sameItems vs bs = true → sameItems as bs = true
  | [], [], [], _, _ => rfl
  | v :: vs, a :: as, b :: bs, ha, hb => by
    rw [sameItems, Bool.and_eq_true] at ha hb ⊢
    exact ⟨same_of_same v ha.1 hb.1, sameItems_of_same vs ha.2 hb.2⟩

theorem sameMembers_of_same : ∀ (vs : List (String × Json)) {as bs : List (String × Json)},
    sameMembers vs as = true → sameMembers vs bs = true → sameMembers as bs = true
  | [], [], [], _, _ => rfl
  | (k, v) :: vs, (l, a) :: as, (m, b) :: bs, ha, hb => by
    rw [sameMembers, Bool.and_eq_true, Bool.and_eq_true, beq_iff_eq] at ha hb ⊢
    exact ⟨⟨ha.1.1.symm.trans hb.1.1, same_of_same v ha.1.2 hb.1.2⟩,
      sameMembers_of_same vs ha.2 hb.2⟩

end

instance : EquivBEq Json where
  rfl := same_self _
  symm {a _} h := same_of_same a h (same_self a)
  trans {a b _} h h' := same_of_same b (same_of_same a h (same_self a)) h'

end Json

end MeetingLedger
