import MeetingLedger.Proofs.Text.Character

/-!
# Texts as bytes

A scan of the bytes of a text that only asks for ASCII characters stops where the scan of its
characters stops: no byte of a character beyond ASCII is the byte of an ASCII character. So the
places where it stops are boundaries of characters, and the text can be cut there.
-/

namespace MeetingLedger

def utf8 (cs : List Char) : List UInt8 := cs.flatMap String.utf8EncodeChar

def bytesOf (text : String) : List UInt8 := text.toUTF8.data.toList

def width (cs : List Char) : Nat := (utf8 cs).length

/-- The byte at a place, as the character with its number. -/
def charAt? (bytes : List UInt8) (i : Nat) : Option Char := bytes[i]?.map Char.ofUInt8

/-- The first place from `i` on where a byte fails a test, or the end. -/
def advance (p : Char → Bool) (bytes : List UInt8) (i : Nat) : Nat :=
  if h : i < bytes.length then
    if p (Char.ofUInt8 bytes[i]) then advance p bytes (i + 1) else i
  else i
termination_by bytes.length - i

/-- A text cut behind a number of bytes, `none` if a character stands across the cut. -/
def splitBytes? : Nat → List Char → Option (List Char × List Char)
  | 0, cs => some ([], cs)
  | _ + 1, [] => none
  | n + 1, c :: cs =>
    if c.utf8Size ≤ n + 1 then
      (splitBytes? (n + 1 - c.utf8Size) cs).map fun (front, back) => (c :: front, back)
    else none

/-- The text between two places, `none` if one of them is no boundary of characters. -/
def slice? (text : List Char) (start stop : Nat) : Option (List Char) :=
  if stop < start then none
  else do
    let (_, rest) ← splitBytes? start text
    let (piece, _) ← splitBytes? (stop - start) rest
    some piece

/-- A test that does not tell characters beyond ASCII apart. -/
def IsAsciiTest (p : Char → Bool) : Prop := ∀ c d : Char, 128 ≤ c.toNat → 128 ≤ d.toNat → p c = p d

theorem bytesOf_eq_utf8 (text : String) : bytesOf text = utf8 text.toList := by
  rw [bytesOf, String.toUTF8_eq_toByteArray, ← String.utf8Encode_toList, List.utf8Encode,
    List.toList_data_toByteArray]
  rfl

section Characters

variable {c : Char}

theorem utf8EncodeChar_of_ascii (h : c.toNat < 128) :
    String.utf8EncodeChar c = [UInt8.ofNat c.toNat] := by
  have hc : c.toNat ≤ 127 := by omega
  simp [String.utf8EncodeChar, hc]

theorem le_toNat_of_mem_utf8EncodeChar (h : 128 ≤ c.toNat) {b : UInt8}
    (hb : b ∈ String.utf8EncodeChar c) : 128 ≤ b.toNat := by
  have hval : c.val.toNat = c.toNat := rfl
  rw [String.utf8EncodeChar, hval, if_neg (by omega)] at hb
  -- Every byte of a longer encoding is a remainder with its highest bit set.
  split at hb
  · simp only [List.mem_cons, List.not_mem_nil, or_false] at hb
    rcases hb with rfl | rfl <;> rw [UInt8.toNat_ofNat'] <;> omega
  · split at hb
    · simp only [List.mem_cons, List.not_mem_nil, or_false] at hb
      rcases hb with rfl | rfl | rfl <;> rw [UInt8.toNat_ofNat'] <;> omega
    · simp only [List.mem_cons, List.not_mem_nil, or_false] at hb
      rcases hb with rfl | rfl | rfl | rfl <;> rw [UInt8.toNat_ofNat'] <;> omega

theorem toNat_ofUInt8 (b : UInt8) : (Char.ofUInt8 b).toNat = b.toNat :=
  UInt8.toNat_toUInt32 b

theorem ofUInt8_of_ascii (h : c.toNat < 128) : Char.ofUInt8 (UInt8.ofNat c.toNat) = c := by
  apply Char.toNat_inj.1
  rw [toNat_ofUInt8, UInt8.toNat_ofNat']
  omega

/-- To a test of ASCII characters the bytes of a character look like the character. -/
theorem test_ofUInt8 {p : Char → Bool} (hp : IsAsciiTest p) {b : UInt8}
    (hb : b ∈ String.utf8EncodeChar c) : p (Char.ofUInt8 b) = p c := by
  by_cases hc : c.toNat < 128
  · rw [utf8EncodeChar_of_ascii hc, List.mem_singleton] at hb
    rw [hb, ofUInt8_of_ascii hc]
  · apply hp
    · rw [toNat_ofUInt8]
      exact le_toNat_of_mem_utf8EncodeChar (by omega) hb
    · omega

end Characters

section Tests

variable {p q : Char → Bool}

theorem ne_of_not_ascii {c d : Char} (hc : 128 ≤ c.toNat) (hd : d.toNat < 128) : c ≠ d := by
  rintro rfl
  omega

theorem isAsciiTest_beq {d : Char} (hd : d.toNat < 128) : IsAsciiTest (· == d) := by
  intro c c' hc hc'
  simp [ne_of_not_ascii hc hd, ne_of_not_ascii hc' hd]

theorem IsAsciiTest.not (hp : IsAsciiTest p) : IsAsciiTest fun c => !p c :=
  fun c d hc hd => congrArg (!·) (hp c d hc hd)

theorem IsAsciiTest.or (hp : IsAsciiTest p) (hq : IsAsciiTest q) :
    IsAsciiTest fun c => p c || q c :=
  fun c d hc hd => congrArg₂ (· || ·) (hp c d hc hd) (hq c d hc hd)

theorem IsAsciiTest.and (hp : IsAsciiTest p) (hq : IsAsciiTest q) :
    IsAsciiTest fun c => p c && q c :=
  fun c d hc hd => congrArg₂ (· && ·) (hp c d hc hd) (hq c d hc hd)

theorem isAsciiTest_isAsciiBlank : IsAsciiTest isAsciiBlank :=
  ((((isAsciiTest_beq (by decide)).or (isAsciiTest_beq (by decide))).or
    (isAsciiTest_beq (by decide))).or (isAsciiTest_beq (by decide))).or
      (isAsciiTest_beq (by decide))

end Tests

section Scans

variable {p : Char → Bool} {cs front piece rest : List Char}

@[simp] theorem utf8_append (cs ds : List Char) : utf8 (cs ++ ds) = utf8 cs ++ utf8 ds := by
  simp [utf8]

@[simp] theorem width_append (cs ds : List Char) : width (cs ++ ds) = width cs + width ds := by
  simp [width]

@[simp] theorem width_nil : width [] = 0 := rfl

theorem width_cons (c : Char) (cs : List Char) : width (c :: cs) = c.utf8Size + width cs := by
  simp [width, utf8]

theorem width_singleton_of_ascii {c : Char} (h : c.toNat < 128) : width [c] = 1 := by
  simp [width, utf8, utf8EncodeChar_of_ascii h]

theorem takeWhile_utf8 (hp : IsAsciiTest p) (cs : List Char) :
    (utf8 cs).takeWhile (fun b => p (Char.ofUInt8 b)) = utf8 (cs.takeWhile p) := by
  induction cs with
  | nil => rfl
  | cons c cs ih =>
    have hcons : utf8 (c :: cs) = String.utf8EncodeChar c ++ utf8 cs := rfl
    cases hc : p c with
    | true =>
      rw [hcons, List.takeWhile_append_of_pos fun b hb => by rw [test_ofUInt8 hp hb, hc], ih,
        List.takeWhile_cons_of_pos hc]
      rfl
    | false =>
      obtain ⟨b, bs, hb⟩ := List.exists_cons_of_ne_nil (String.utf8EncodeChar_ne_nil (c := c))
      have hfirst : p (Char.ofUInt8 b) = false := by
        rw [test_ofUInt8 (c := c) hp (by simp [hb]), hc]
      rw [hcons, hb, List.cons_append, List.takeWhile_cons_of_neg (by simp [hfirst]),
        List.takeWhile_cons_of_neg (by simp [hc])]
      rfl

theorem advance_eq (p : Char → Bool) (bytes : List UInt8) (i : Nat) :
    advance p bytes i = i + ((bytes.drop i).takeWhile fun b => p (Char.ofUInt8 b)).length := by
  fun_induction advance p bytes i with
  | case1 i h hpass ih =>
    rw [ih, List.drop_eq_getElem_cons h]
    simp only [List.takeWhile_cons, hpass, if_true, List.length_cons]
    omega
  | case2 i h hstop =>
    rw [List.drop_eq_getElem_cons h]
    simp [hstop]
  | case3 i h =>
    rw [List.drop_eq_nil_of_le (by omega)]
    rfl

theorem le_advance (p : Char → Bool) (bytes : List UInt8) (i : Nat) : i ≤ advance p bytes i := by
  rw [advance_eq]
  omega

theorem advance_le {bytes : List UInt8} {i : Nat} (h : i ≤ bytes.length) :
    advance p bytes i ≤ bytes.length := by
  have htake := (List.takeWhile_prefix (l := bytes.drop i) fun b => p (Char.ofUInt8 b)).length_le
  rw [List.length_drop] at htake
  rw [advance_eq]
  omega

theorem lt_advance {bytes : List UInt8} {i : Nat} (h : i < bytes.length)
    (hpass : p (Char.ofUInt8 bytes[i]) = true) : i < advance p bytes i := by
  have hnext := le_advance p bytes (i + 1)
  rw [advance, dif_pos h, if_pos hpass]
  omega

theorem advance_of_not {bytes : List UInt8} {i : Nat} (h : i < bytes.length)
    (hstop : p (Char.ofUInt8 bytes[i]) = false) : advance p bytes i = i := by
  rw [advance, dif_pos h, if_neg (by simp [hstop])]

theorem lt_of_charAt? {bytes : List UInt8} {i : Nat} {c : Char} (h : charAt? bytes i = some c) :
    i < bytes.length := by
  obtain ⟨b, hb, -⟩ := Option.map_eq_some_iff.1 h
  exact (List.getElem?_eq_some_iff.1 hb).1

theorem charAt?_of_lt {bytes : List UInt8} {i : Nat} (h : i < bytes.length) :
    charAt? bytes i = some (Char.ofUInt8 bytes[i]) := by
  simp [charAt?, h]

theorem drop_utf8 (front rest : List Char) :
    (utf8 (front ++ rest)).drop (width front) = utf8 rest := by
  simp [width]

theorem advance_utf8 (hp : IsAsciiTest p) (htext : cs = front ++ (piece ++ rest))
    (hpiece : ∀ c ∈ piece, p c = true) (hrest : rest.head?.all (!p ·) = true) :
    advance p (utf8 cs) (width front) = width (front ++ piece) := by
  rw [htext, advance_eq, drop_utf8, takeWhile_utf8 hp, takeWhile_append_of_head? hpiece hrest,
    width_append]
  rfl

theorem charAt?_utf8_nil (front : List Char) : charAt? (utf8 front) (width front) = none := by
  simp [charAt?, width]

theorem charAt?_utf8_cons (front : List Char) (c : Char) (rest : List Char) :
    ∃ b ∈ String.utf8EncodeChar c,
      charAt? (utf8 (front ++ c :: rest)) (width front) = some (Char.ofUInt8 b) := by
  obtain ⟨b, bs, hb⟩ := List.exists_cons_of_ne_nil (String.utf8EncodeChar_ne_nil (c := c))
  refine ⟨b, by simp [hb], ?_⟩
  have hhead : (utf8 (front ++ c :: rest))[width front]? = some b := by
    rw [← List.head?_drop, drop_utf8]
    simp [utf8, hb]
  rw [charAt?, hhead]
  rfl

/-- An ASCII character is met where it stands and nowhere else. -/
theorem charAt?_eq_some_iff {d : Char} (hd : d.toNat < 128) (htext : cs = front ++ rest) :
    charAt? (utf8 cs) (width front) = some d ↔ rest.head? = some d := by
  rw [htext]
  cases rest with
  | nil => simp [charAt?_utf8_nil]
  | cons c rest =>
    obtain ⟨b, hb, hat⟩ := charAt?_utf8_cons front c rest
    rw [hat, List.head?_cons, Option.some_inj, Option.some_inj]
    simpa using congrArg (· = true) (test_ofUInt8 (isAsciiTest_beq hd) hb)

end Scans

section Slices

variable {text front piece back : List Char} {n start stop : Nat}

theorem splitBytes?_width (front back : List Char) :
    splitBytes? (width front) (front ++ back) = some (front, back) := by
  induction front with
  | nil => simp [splitBytes?]
  | cons c front ih =>
    have hsize := c.utf8Size_pos
    obtain ⟨n, hn⟩ : ∃ n, width (c :: front) = n + 1 :=
      Nat.exists_eq_succ_of_ne_zero (by rw [width_cons]; omega)
    have hwidth := width_cons c front
    have hrest : n + 1 - c.utf8Size = width front := by omega
    rw [hn, List.cons_append, splitBytes?, if_pos (by omega), hrest, ih]
    rfl

theorem append_of_splitBytes? (h : splitBytes? n text = some (front, back)) :
    text = front ++ back ∧ n = width front := by
  fun_induction splitBytes? n text generalizing front with
  | case1 cs =>
    cases h
    simp
  | case2 n => cases h
  | case3 n c cs hsize ih =>
    obtain ⟨⟨front', back'⟩, hsplit, heq⟩ := Option.map_eq_some_iff.1 h
    cases heq
    obtain ⟨rfl, hn⟩ := ih hsplit
    rw [width_cons]
    exact ⟨rfl, by omega⟩
  | case4 n c cs hsize => cases h

theorem slice?_width (htext : text = front ++ (piece ++ back)) :
    slice? text (width front) (width (front ++ piece)) = some piece := by
  have hlength : width front + width piece - width front = width piece := by omega
  rw [slice?, if_neg (by simp), htext, splitBytes?_width, width_append, hlength]
  simp [splitBytes?_width]

theorem append_of_slice? (h : slice? text start stop = some piece) :
    ∃ front back, text = front ++ (piece ++ back) ∧ start = width front ∧
      stop = width (front ++ piece) := by
  rw [slice?] at h
  split at h
  · cases h
  · rename_i hle
    simp only [Option.bind_eq_bind, Option.bind_eq_some_iff, Prod.exists, Option.some.injEq] at h
    obtain ⟨front, rest, hfront, piece, back, hpiece, rfl⟩ := h
    obtain ⟨rfl, hstart⟩ := append_of_splitBytes? hfront
    obtain ⟨rfl, hlength⟩ := append_of_splitBytes? hpiece
    exact ⟨front, back, rfl, hstart, by rw [width_append]; omega⟩

theorem isValid_width (front rest : List Char) :
    (⟨width front⟩ : String.Pos.Raw).IsValid (String.ofList (front ++ rest)) := by
  apply String.Pos.Raw.isValid_iff_exists_append.2
  refine ⟨String.ofList front, String.ofList rest, String.ofList_append, ?_⟩
  apply String.Pos.Raw.ext
  rw [String.byteIdx_rawEndPos, ← String.size_toByteArray, String.toByteArray_ofList,
    List.utf8Encode, List.size_toByteArray]
  rfl

theorem isValid_of_slice? {source : String} (h : slice? source.toList start stop = some piece) :
    (⟨start⟩ : String.Pos.Raw).IsValid source ∧ (⟨stop⟩ : String.Pos.Raw).IsValid source := by
  obtain ⟨front, back, hsource, rfl, rfl⟩ := append_of_slice? h
  have hstring : source = String.ofList (front ++ (piece ++ back)) := by
    rw [← hsource, String.ofList_toList]
  constructor
  · rw [hstring]
    exact isValid_width front (piece ++ back)
  · rw [hstring, ← List.append_assoc]
    exact isValid_width (front ++ piece) back

end Slices

end MeetingLedger
