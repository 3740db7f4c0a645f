/-!
# Computations that may fail

Computations over lists that stop at the first failure.
-/

namespace MeetingLedger

variable {ε α β : Type}

theorem ok_bind (a : α) (f : α → Except ε β) : Except.ok a >>= f = f a := rfl

theorem bind_eq_ok_iff {x : Except ε α} {f : α → Except ε β} {b : β} :
    x >>= f = .ok b ↔ ∃ a, x = .ok a ∧ f a = .ok b := by
  cases x <;> simp [bind, Except.bind]

theorem check_bind_eq_ok_iff {x : Except ε Unit} {y : Except ε β} {b : β} :
    (x >>= fun _ => y) = .ok b ↔ x = .ok () ∧ y = .ok b := by
  cases x <;> simp [bind, Except.bind]

theorem bind_eq_error_iff {x : Except ε α} {f : α → Except ε β} {e : ε} :
    x >>= f = .error e ↔ x = .error e ∨ ∃ a, x = .ok a ∧ f a = .error e := by
  cases x <;> simp [bind, Except.bind]

theorem map_eq_ok_iff {x : Except ε α} {f : α → β} {b : β} :
    x.map f = .ok b ↔ ∃ a, x = .ok a ∧ f a = b := by
  cases x <;> simp [Except.map]

theorem eq_ok_of_toOption {x : Except ε α} {a : α} (h : x.toOption = some a) : x = .ok a := by
  cases x with
  | error e => cases h
  | ok b => rw [Option.some.inj h]

theorem exists_eq_ok_of_any {x : Except ε α} {p : α → Bool} (h : x.toOption.any p = true) :
    ∃ a, x = .ok a ∧ p a = true := by
  cases x with
  | error e => cases h
  | ok a => exact ⟨a, rfl, h⟩

theorem mapM_cons_eq_ok_iff {f : α → Except ε β} {a : α} {as : List α} {bs : List β} :
    (a :: as).mapM f = .ok bs ↔
      ∃ b bs', f a = .ok b ∧ as.mapM f = .ok bs' ∧ bs = b :: bs' := by
  rw [List.mapM_cons]
  cases f a with
  | error e => simp [bind, Except.bind]
  | ok b =>
    cases as.mapM f with
    | error e => simp [bind, Except.bind]
    | ok bs' => simp [bind, Except.bind, pure, Except.pure, eq_comm]

theorem mapM_ne_error {f : α → Except ε β} {e : ε} (each : ∀ a, f a ≠ .error e) (as : List α) :
    as.mapM f ≠ .error e := by
  induction as with
  | nil => exact nofun
  | cons a as ih =>
    rw [List.mapM_cons]
    intro h
    rcases bind_eq_error_iff.1 h with hfirst | ⟨b, -, h⟩
    · exact each a hfirst
    · rcases bind_eq_error_iff.1 h with hrest | ⟨bs, -, h⟩
      · exact ih hrest
      · cases h

theorem forall_of_mapM {P : β → Prop} {f : α → Except ε β} {as : List α} {bs : List β}
    (each : ∀ a b, f a = .ok b → P b) (h : as.mapM f = .ok bs) : ∀ b ∈ bs, P b := by
  induction as generalizing bs with
  | nil =>
    obtain rfl : [] = bs := Except.ok.inj h
    exact nofun
  | cons a as ih =>
    obtain ⟨b, bs', hfirst, hrest, rfl⟩ := mapM_cons_eq_ok_iff.1 h
    exact List.forall_mem_cons.2 ⟨each a b hfirst, ih hrest⟩

theorem mapM_map_eq_ok {f : β → Except ε α} {g : α → β} {as : List α}
    (each : ∀ a ∈ as, f (g a) = .ok a) : (as.map g).mapM f = .ok as := by
  induction as with
  | nil => rfl
  | cons a as ih =>
    have hrest := ih fun b hb => each b (List.mem_cons_of_mem a hb)
    exact mapM_cons_eq_ok_iff.2 ⟨a, as, each a List.mem_cons_self, hrest, rfl⟩

theorem foldlM_cons_of_ok {f : β → α → Except ε β} {a : α} {b b' : β} (h : f b a = .ok b')
    (as : List α) : (a :: as).foldlM f b = as.foldlM f b' := by
  rw [List.foldlM_cons, h, ok_bind]

/-- What every step keeps is kept by all steps. -/
theorem foldlM_invariant {P : β → Prop} {f : β → α → Except ε β} {as : List α} {b b' : β}
    (step : ∀ b a b', P b → f b a = .ok b' → P b') (start : P b)
    (h : as.foldlM f b = .ok b') : P b' := by
  induction as generalizing b with
  | nil =>
    obtain rfl : b = b' := Except.ok.inj h
    exact start
  | cons a as ih =>
    rw [List.foldlM_cons] at h
    obtain ⟨next, hfirst, hrest⟩ := bind_eq_ok_iff.1 h
    exact ih (step b a next start hfirst) hrest

end MeetingLedger
