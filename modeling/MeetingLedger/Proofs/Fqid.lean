import MeetingLedger.Fqid
import MeetingLedger.Proofs.Text.Character

/-!
# The written form of full names

The written form of a full name stands for one model only, and no other text is read as that model.
-/

namespace MeetingLedger

theorem chars_of_isCollectionName {name : String} (h : isCollectionName name = true) :
    name.toList ≠ [] ∧
      ∀ c ∈ name.toList, (isAsciiLower c || isAsciiDigit c || c == '_') = true := by
  rw [isCollectionName] at h
  cases hname : name.toList with
  | nil => simp [hname] at h
  | cons c cs =>
    rw [hname, Bool.and_eq_true, List.all_eq_true] at h
    simp_all

/-- The sign between a collection and an id is not part of a name. -/
theorem slash_not_mem_of_isCollectionName {name : String} (h : isCollectionName name = true) :
    '/' ∉ name.toList := fun hmem =>
  absurd ((chars_of_isCollectionName h).2 '/' hmem) (by decide)

section Digits

theorem isAsciiDigit_of_mem_toDigits {n : Nat} {c : Char} (h : c ∈ Nat.toDigits 10 n) :
    isAsciiDigit c = true := by
  have hc := Nat.isDigit_of_mem_toDigits (by decide) (by decide) h
  simpa [Char.isDigit, isAsciiDigit, Char.le_def] using hc

theorem digitChar_sub {c : Char} (h : isAsciiDigit c = true) : (c.toNat - 48).digitChar = c := by
  obtain ⟨hlow, hhigh⟩ := bounds_of_isAsciiDigit h
  apply Char.toNat_inj.1
  rw [Nat.toNat_digitChar_of_lt_ten (by omega)]
  omega

theorem toDigits_append_digits {cs : List Char} (hdigits : ∀ c ∈ cs, isAsciiDigit c = true) {n : Nat}
    (hn : 0 < n) : Nat.toDigits 10 n ++ cs = Nat.toDigits 10 (Nat.ofDigitChars 10 cs n) := by
  induction cs generalizing n with
  | nil => simp
  | cons c cs ih =>
    have hc := hdigits c List.mem_cons_self
    obtain ⟨hlow, hhigh⟩ := bounds_of_isAsciiDigit hc
    have hlt : c.toNat - 48 < 10 := by omega
    have hdigit : Nat.toDigits 10 n ++ [c] = Nat.toDigits 10 (10 * n + (c.toNat - 48)) := by
      rw [← Nat.toDigits_append_toDigits (by decide) hn hlt, Nat.toDigits_of_lt_base hlt,
        digitChar_sub hc]
    calc
      Nat.toDigits 10 n ++ c :: cs = (Nat.toDigits 10 n ++ [c]) ++ cs := by simp
      _ = Nat.toDigits 10 (10 * n + (c.toNat - 48)) ++ cs := by rw [hdigit]
      _ = Nat.toDigits 10 (Nat.ofDigitChars 10 (c :: cs) n) := by
        rw [Nat.ofDigitChars_cons]
        exact ih (fun d hd => hdigits d (List.mem_cons_of_mem _ hd)) (by omega)

/-- An id is read from its decimal notation only. -/
theorem toDigits_of_parseId? {cs : List Char} {n : UInt64} (h : parseId? cs = some n) :
    cs = Nat.toDigits 10 n.toNat := by
  rw [parseId?] at h
  split at h
  · cases h
  · rename_i hshape
    simp only at h
    split at h
    · rename_i hlt
      obtain rfl := Option.some.inj h
      rw [UInt64.toNat_ofNat', Nat.mod_eq_of_lt hlt]
      cases cs with
      | nil => simp at hshape
      | cons c cs =>
        simp only [List.isEmpty_cons, List.head?_cons, Bool.false_or, Bool.or_eq_true,
          beq_iff_eq, Option.some.injEq, Bool.not_eq_true', not_or, Bool.not_eq_false,
          List.all_eq_true] at hshape
        obtain ⟨hzero, hdigits⟩ := hshape
        have hc := hdigits c List.mem_cons_self
        obtain ⟨hlow, hhigh⟩ := bounds_of_isAsciiDigit hc
        have hlt : c.toNat - 48 < 10 := by omega
        have hpos : 0 < c.toNat - 48 := by
          have hne : c.toNat ≠ 48 := fun heq => hzero (Char.toNat_inj.1 heq)
          omega
        have happend := toDigits_append_digits
          (fun d hd => hdigits d (List.mem_cons_of_mem c hd)) hpos
        rw [Nat.toDigits_of_lt_base hlt, digitChar_sub hc] at happend
        rw [Nat.ofDigitChars_cons, Nat.mul_zero, Nat.zero_add]
        exact happend
    · cases h

theorem head?_toDigits_ne_zero {n : Nat} (hn : 0 < n) : (Nat.toDigits 10 n).head? ≠ some '0' := by
  induction n using Nat.strongRecOn with
  | _ n ih =>
    rw [Nat.toDigits_eq_if (by decide)]
    split
    · simpa using Nat.ne_of_gt hn
    · have hrest := ih (n / 10) (by omega) (by omega)
      rwa [List.head?_append, Option.or_of_isSome (by simp)]

/-- The decimal notation of a number is read just if it is positive and fits a word. -/
theorem parseId?_toDigits_eq (n : Nat) :
    parseId? (Nat.toDigits 10 n) =
      if 1 ≤ n ∧ n < UInt64.size then some (UInt64.ofNat n) else none := by
  by_cases hzero : n = 0
  · subst hzero
    rfl
  have hhead := head?_toDigits_ne_zero (Nat.pos_of_ne_zero hzero)
  have hdigits : (Nat.toDigits 10 n).all isAsciiDigit = true :=
    List.all_eq_true.2 fun c hc => isAsciiDigit_of_mem_toDigits hc
  have hread : Nat.ofDigitChars 10 (Nat.toDigits 10 n) 0 = n := Nat.ofDigitChars_ten_toDigits
  have hpos : 1 ≤ n := by omega
  simp [parseId?, hhead, hdigits, hread, hpos, UInt64.size]

theorem parseId?_toDigits {n : UInt64} (hn : 0 < n) :
    parseId? (Nat.toDigits 10 n.toNat) = some n := by
  have hpos : 1 ≤ n.toNat := UInt64.lt_iff_toNat_lt.1 hn
  rw [parseId?_toDigits_eq, if_pos ⟨hpos, n.toNat_lt⟩, UInt64.ofNat_toNat]

theorem pos_of_parseId? {cs : List Char} {n : UInt64} (h : parseId? cs = some n) : 0 < n := by
  by_cases hzero : n = 0
  · subst hzero
    rw [toDigits_of_parseId? h] at h
    cases h
  · exact UInt64.pos_iff_ne_zero.2 hzero

end Digits

namespace Fqid

theorem toList_text (f : Fqid) :
    f.text.toList = f.collection.toList ++ '/' :: Nat.toDigits 10 f.id.toNat := by
  simp [text]

theorem text_of_parse? {raw : String} {f : Fqid} (h : parse? raw = some f) : raw = f.text := by
  obtain ⟨⟨collection, id⟩, hsplit, h⟩ := Option.bind_eq_some_iff.1 h
  simp only at h
  split at h
  · obtain ⟨n, hn, rfl⟩ := Option.map_eq_some_iff.1 h
    apply String.toList_inj.1
    rw [toList_text, append_of_splitAtFirst hsplit, ← toDigits_of_parseId? hn,
      String.toList_ofList]
  · cases h

/-- A full name that is read as the model that it was written for. -/
def IsReadable (f : Fqid) : Prop := parse? f.text = some f

instance (f : Fqid) : Decidable f.IsReadable := inferInstanceAs (Decidable (_ = _))

theorem IsReadable.name_and_id {f : Fqid} (h : f.IsReadable) :
    isCollectionName f.collection = true ∧ 0 < f.id := by
  obtain ⟨⟨collection, id⟩, -, hread⟩ := Option.bind_eq_some_iff.1 h
  simp only at hread
  split at hread
  · rename_i hname
    obtain ⟨n, hn, rfl⟩ := Option.map_eq_some_iff.1 hread
    exact ⟨hname, pos_of_parseId? hn⟩
  · cases hread

theorem isReadable_iff {f : Fqid} :
    f.IsReadable ↔ isCollectionName f.collection = true ∧ 0 < f.id := by
  refine ⟨IsReadable.name_and_id, ?_⟩
  rintro ⟨hname, hpos⟩
  have hsplit := splitAtFirst_append (slash_not_mem_of_isCollectionName hname)
    (Nat.toDigits 10 f.id.toNat)
  simp [IsReadable, parse?, toList_text, hsplit, hname, parseId?_toDigits hpos]

/-- Different models have different full names: the digits at the end are the id. -/
theorem text_injective : Function.Injective text := by
  intro f g h
  have hlists : (Nat.toDigits 10 f.id.toNat).reverse ++ '/' :: f.collection.toList.reverse =
      (Nat.toDigits 10 g.id.toNat).reverse ++ '/' :: g.collection.toList.reverse := by
    have hlists := congrArg (fun s => s.toList.reverse) h
    simpa [toList_text] using hlists
  have hdigits (n : Nat) : ∀ c ∈ (Nat.toDigits 10 n).reverse, c.isDigit = true := fun c hc =>
    Nat.isDigit_of_mem_toDigits (by decide) (by decide) (List.mem_reverse.1 hc)
  have hstop : ('/' : Char).isDigit = false := by decide
  have htake := congrArg (List.takeWhile Char.isDigit) hlists
  have hdrop := congrArg (List.dropWhile Char.isDigit) hlists
  simp only [List.takeWhile_append_of_pos (hdigits _), List.dropWhile_append_of_pos (hdigits _),
    List.takeWhile_cons, List.dropWhile_cons, hstop, Bool.false_eq_true, if_false,
    List.append_nil, List.reverse_inj, List.cons.injEq, true_and] at htake hdrop
  have hid := congrArg (fun ds => Nat.ofDigitChars 10 ds 0) htake
  simp only [Nat.ofDigitChars_ten_toDigits] at hid
  cases f
  cases g
  simp_all [UInt64.toNat_inj, String.toList_inj]

/-- A text is read as a model just if it is the full name of the model. -/
theorem parse?_eq_some_iff {raw : String} {f : Fqid} :
    parse? raw = some f ↔ isCollectionName f.collection = true ∧ 1 ≤ f.id ∧ raw = f.text := by
  have hpos : 1 ≤ f.id ↔ 0 < f.id := by
    simp only [UInt64.le_iff_toNat_le, UInt64.lt_iff_toNat_lt, UInt64.toNat_one, UInt64.toNat_zero]
    omega
  rw [hpos]
  constructor
  · intro h
    have hraw := text_of_parse? h
    subst hraw
    have hread : f.IsReadable := h
    exact ⟨hread.name_and_id.1, hread.name_and_id.2, rfl⟩
  · rintro ⟨hname, hid, rfl⟩
    exact isReadable_iff.2 ⟨hname, hid⟩

/-- Behind the name of a collection the decimal notation of every number is read that is positive
and fits a word. -/
theorem parse?_append_toString {name : String} (hname : isCollectionName name = true) (n : Nat) :
    parse? (name ++ "/" ++ toString n) =
      if 1 ≤ n ∧ n < UInt64.size then some ⟨name, UInt64.ofNat n⟩ else none := by
  have hsplit := splitAtFirst_append (slash_not_mem_of_isCollectionName hname) (Nat.toDigits 10 n)
  have hlist : (name ++ "/" ++ toString n).toList = name.toList ++ '/' :: Nat.toDigits 10 n := by
    simp
  simp only [parse?, hlist, hsplit, Option.bind_eq_bind, Option.bind_some, String.ofList_toList,
    hname, if_true, parseId?_toDigits_eq]
  split <;> rfl

/-- Written names are canonical: a text is read as a model just if it names a collection and a
positive id and is the written form of the model, so that no two texts name one model, and behind
the name of a collection exactly the numbers from 1 to 2^64 - 1 are ids. -/
theorem text_canonical :
    (∀ raw f, parse? raw = some f ↔
      isCollectionName f.collection = true ∧ 1 ≤ f.id ∧ raw = f.text) ∧
    (∀ raw raw' f, parse? raw = some f → parse? raw' = some f → raw = raw') ∧
    ∀ name, isCollectionName name = true → ∀ n : Nat,
      parse? (name ++ "/" ++ toString n) =
        if 1 ≤ n ∧ n < UInt64.size then some ⟨name, UInt64.ofNat n⟩ else none := by
  refine ⟨fun _ _ => parse?_eq_some_iff, fun raw raw' f h h' => ?_, fun name hname n =>
    parse?_append_toString hname n⟩
  calc
    raw = f.text := text_of_parse? h
    _ = raw' := (text_of_parse? h').symm

/-- The last id of a collection is read and the number after it is not. -/
theorem text_canonical_of_lastId :
    isCollectionName "meeting_user2" = true ∧
      parse? "meeting_user2/18446744073709551615" = some ⟨"meeting_user2", 18446744073709551615⟩ ∧
      parse? "meeting_user2/18446744073709551616" = none ∧
      ∀ raw, parse? raw = some ⟨"meeting_user2", 18446744073709551615⟩ →
        raw = "meeting_user2/18446744073709551615" := by
  have hname : isCollectionName "meeting_user2" = true := by decide +kernel
  have hlast := text_canonical.2.2 "meeting_user2" hname (UInt64.size - 1)
  have hnext := text_canonical.2.2 "meeting_user2" hname UInt64.size
  have hlast : parse? "meeting_user2/18446744073709551615" =
      some ⟨"meeting_user2", 18446744073709551615⟩ := hlast
  exact ⟨hname, hlast, hnext, fun raw h => text_canonical.2.1 _ _ _ h hlast⟩

end Fqid

end MeetingLedger
