import Mathlib.Data.List.TakeWhile
import MeetingLedger.Text.Character

/-! # Characters, the case of letters, and texts cut at a character -/

namespace MeetingLedger

section Classes

theorem bounds_of_isAsciiDigit {c : Char} (h : isAsciiDigit c = true) :
    48 ≤ c.toNat ∧ c.toNat ≤ 57 := by
  simp only [isAsciiDigit, Bool.and_eq_true, decide_eq_true_eq, Char.le_def,
    UInt32.le_iff_toNat_le] at h
  exact h

theorem isDecimalDigit_of_isAsciiDigit {c : Char} (h : isAsciiDigit c = true) :
    isDecimalDigit c = true := by
  obtain ⟨hlow, hhigh⟩ := bounds_of_isAsciiDigit h
  rw [isDecimalDigit, decimalZeros, List.any_cons, Bool.or_eq_true]
  left
  simp only [Bool.and_eq_true, decide_eq_true_eq]
  exact ⟨hlow, Nat.lt_succ_of_le hhigh⟩

theorem isAsciiUpper_iff {c : Char} :
    isAsciiUpper c = true ↔ c.val ≥ 'A'.val ∧ c.val ≤ 'Z'.val := by
  rw [isAsciiUpper, Bool.and_eq_true, decide_eq_true_eq, decide_eq_true_eq]
  exact Iff.rfl

theorem toLower_eq_self {c : Char} (h : isAsciiUpper c = false) : c.toLower = c := by
  unfold Char.toLower
  rw [dif_neg]
  intro hupper
  rw [isAsciiUpper_iff.2 hupper] at h
  cases h

theorem isAsciiLower_toLower {c : Char} (h : isAsciiUpper c = true) :
    isAsciiLower c.toLower = true := by
  have hupper := isAsciiUpper_iff.1 h
  rw [isAsciiLower, Bool.and_eq_true, decide_eq_true_eq, decide_eq_true_eq, Char.le_def, Char.le_def]
  unfold Char.toLower
  rw [dif_pos hupper]
  have hfirst : ('A'.val).toNat = 65 := rfl
  have hlast : ('Z'.val).toNat = 90 := rfl
  have hshift : ('a'.val - 'A'.val).toNat = 32 := by decide
  have hlower : ('a'.val).toNat = 97 ∧ ('z'.val).toNat = 122 := ⟨rfl, rfl⟩
  simp only [ge_iff_le, UInt32.le_iff_toNat_le, UInt32.toNat_add] at hupper ⊢
  omega

theorem isAsciiUpper_of_isAsciiLower {c : Char} (h : isAsciiLower c = true) :
    isAsciiUpper c = false := by
  rw [isAsciiLower, Bool.and_eq_true, decide_eq_true_eq, decide_eq_true_eq, Char.le_def] at h
  rw [← Bool.not_eq_true, isAsciiUpper_iff]
  exact fun hupper => absurd (UInt32.le_trans h.1 hupper.2) (by decide)

theorem isAsciiUpper_toLower (c : Char) : isAsciiUpper c.toLower = false := by
  cases hupper : isAsciiUpper c with
  | true => exact isAsciiUpper_of_isAsciiLower (isAsciiLower_toLower hupper)
  | false => rw [toLower_eq_self hupper, hupper]

/-- A letter stays a letter in lowercase, and no other character becomes one. -/
theorem isAsciiLetter_toLower (c : Char) : isAsciiLetter c.toLower = isAsciiLetter c := by
  cases hupper : isAsciiUpper c with
  | true =>
    rw [isAsciiLetter, isAsciiLetter, isAsciiLower_toLower hupper, hupper, Bool.or_true, Bool.true_or]
  | false => rw [toLower_eq_self hupper]

theorem toLower_eq_iff_of_not_letter {c d : Char} (hd : isAsciiLetter d = false) :
    c.toLower = d ↔ c = d := by
  constructor
  · rintro rfl
    rw [isAsciiLetter_toLower] at hd
    exact (toLower_eq_self (Bool.or_eq_false_iff.1 hd).2).symm
  · rintro rfl
    exact toLower_eq_self (Bool.or_eq_false_iff.1 hd).2

end Classes

section Cuts

theorem head?_all_dropWhile {α : Type} (p : α → Bool) (l : List α) :
    (l.dropWhile p).head?.all (!p ·) = true := by
  have hhead := List.head?_dropWhile_not p l
  cases hl : (l.dropWhile p).head? with
  | none => rfl
  | some a =>
    rw [hl] at hhead
    simpa using hhead

theorem takeWhile_of_head? {α : Type} {p : α → Bool} {l : List α}
    (h : l.head?.all (!p ·) = true) : l.takeWhile p = [] := by
  cases l with
  | nil => rfl
  | cons a l => exact List.takeWhile_cons_of_neg (by simpa using h)

theorem dropWhile_of_head? {α : Type} {p : α → Bool} {l : List α}
    (h : l.head?.all (!p ·) = true) : l.dropWhile p = l := by
  cases l with
  | nil => rfl
  | cons a l => exact List.dropWhile_cons_of_neg (by simpa using h)

/-- Where all of one piece passes a test and the next piece starts with a character that does not,
the first piece is what is taken. -/
theorem takeWhile_append_of_head? {α : Type} {p : α → Bool} {l r : List α}
    (hl : ∀ a ∈ l, p a = true) (hr : r.head?.all (!p ·) = true) : (l ++ r).takeWhile p = l := by
  rw [List.takeWhile_append_of_pos hl, takeWhile_of_head? hr, List.append_nil]

theorem dropWhile_append_of_head? {α : Type} {p : α → Bool} {l r : List α}
    (hl : ∀ a ∈ l, p a = true) (hr : r.head?.all (!p ·) = true) : (l ++ r).dropWhile p = r := by
  rw [List.dropWhile_append_of_pos hl, dropWhile_of_head? hr]

theorem bne_of_not_mem {c : Char} {cs : List Char} (h : c ∉ cs) : ∀ d ∈ cs, (d != c) = true := by
  intro d hd
  rw [bne_iff_ne]
  rintro rfl
  exact h hd

theorem append_of_splitAtFirst {c : Char} {cs before after : List Char}
    (h : splitAtFirst c cs = some (before, after)) : cs = before ++ c :: after := by
  induction cs generalizing before with
  | nil => cases h
  | cons d cs ih =>
    rw [splitAtFirst] at h
    split at h
    · rename_i hd
      cases h
      simp [hd]
    · obtain ⟨⟨b, a⟩, hsplit, heq⟩ := Option.map_eq_some_iff.1 h
      cases heq
      rw [ih hsplit, List.cons_append]

theorem splitAtFirst_append {c : Char} {before : List Char} (h : c ∉ before)
    (after : List Char) : splitAtFirst c (before ++ c :: after) = some (before, after) := by
  induction before with
  | nil => simp [splitAtFirst]
  | cons d before ih =>
    rw [List.mem_cons, not_or] at h
    simp [splitAtFirst, ih h.2, Ne.symm h.1]

theorem dropLiteral?_append (l cs : List Char) : dropLiteral? l (l ++ cs) = some cs := by
  induction l with
  | nil => rfl
  | cons c l ih => simp [dropLiteral?, ih]

theorem append_of_dropLiteral? {l cs rest : List Char} (h : dropLiteral? l cs = some rest) :
    cs = l ++ rest := by
  fun_induction dropLiteral? l cs with
  | case1 cs => simpa using h
  | case2 => cases h
  | case3 l ls cs ih => simp [ih h]
  | case4 => cases h

end Cuts

end MeetingLedger
