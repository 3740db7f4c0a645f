import Mathlib.Data.List.TakeWhile
import MeetingLedger.Proofs.Fqid
import MeetingLedger.Proofs.Schema.Values

/-!
# Decimals and the bounds of their fields

A decimal may be written with the digits of any script, but only the ASCII digits are read as a
number. So a decimal is compared with the bounds of its field just if all of its digits are ASCII
digits, and any other decimal passes whatever the bounds are.
-/

namespace MeetingLedger

def signChars (negative : Bool) : List Char := if negative then ['-'] else []

def dropSign : List Char → List Char
  | '-' :: cs => cs
  | cs => cs

theorem exists_sign (cs : List Char) : ∃ negative, cs = signChars negative ++ dropSign cs := by
  fun_cases dropSign cs with
  | case1 cs => exact ⟨true, rfl⟩
  | case2 cs => exact ⟨false, rfl⟩

theorem dropSign_append (negative : Bool) {d : Char} (hd : d ≠ '-') (cs : List Char) :
    dropSign (signChars negative ++ d :: cs) = d :: cs := by
  cases negative with
  | true => rfl
  | false => exact dropSign.eq_2 _ fun _ heq => hd (List.cons.inj heq).1

namespace Real64

variable {negative : Bool} {cs whole places : List Char}

theorem readUnsigned?_eq_none_of_mantissa? {digits : List Char × List Char} {c : Char}
    {rest : List Char} (h : mantissa? cs = some (digits, c :: rest)) (he : c ≠ 'e')
    (hE : c ≠ 'E') : readUnsigned? negative cs = none := by
  rw [readUnsigned?, h]
  simp only [Option.bind_eq_bind, Option.bind_some]
  split
  · rename_i heq
    cases heq
  · rename_i heq
    exact absurd (List.cons.inj heq).1 he
  · rename_i heq
    exact absurd (List.cons.inj heq).1 hE
  · rfl

theorem mantissa?_of_point (hwhole : ∀ c ∈ whole, isAsciiDigit c = true) (hne : whole ≠ [])
    (places : List Char) : mantissa? (whole ++ '.' :: places) =
      some ((whole, places.takeWhile isAsciiDigit), places.dropWhile isAsciiDigit) := by
  have htake : (whole ++ '.' :: places).takeWhile isAsciiDigit = whole :=
    takeWhile_append_of_head? hwhole rfl
  have hdrop : (whole ++ '.' :: places).dropWhile isAsciiDigit = '.' :: places :=
    dropWhile_append_of_head? hwhole rfl
  simp only [mantissa?, htake, hdrop]
  simp [hne]

theorem mantissa?_of_stop {c : Char} {rest : List Char}
    (hdrop : cs.dropWhile isAsciiDigit = c :: rest) (hpoint : c ≠ '.') :
    mantissa? cs = none ∨ mantissa? cs = some ((cs.takeWhile isAsciiDigit, []), c :: rest) := by
  simp only [mantissa?, hdrop]
  split
  · rename_i heq
    exact absurd (List.cons.inj heq).1 hpoint
  · cases (cs.takeWhile isAsciiDigit).isEmpty with
    | true => exact .inl rfl
    | false => exact .inr rfl

/-- Digits and a point are no word, and only a minus in front of them is a sign. -/
theorem read?_of_point {d : Char} (hd : isDecimalDigit d = true) (hpoint : '.' ∈ d :: cs) :
    read? (signChars negative ++ d :: cs) = readUnsigned? negative (d :: cs) := by
  have hword (word : String) (hword : '.' ∉ word.toList) :
      (String.ofList ((d :: cs).map Char.toLower) == word) = false := by
    rw [beq_eq_false_iff_ne]
    rintro rfl
    refine hword ?_
    rw [String.toList_ofList]
    exact List.mem_map.2 ⟨'.', hpoint, rfl⟩
  have hbody (negative : Bool) : (if String.ofList ((d :: cs).map Char.toLower) == "inf" ||
        String.ofList ((d :: cs).map Char.toLower) == "infinity" then some (infinity negative)
      else if String.ofList ((d :: cs).map Char.toLower) == "nan" then some nan
      else readUnsigned? negative (d :: cs)) = readUnsigned? negative (d :: cs) := by
    rw [hword "inf" (by decide), hword "infinity" (by decide), hword "nan" (by decide)]
    rfl
  cases negative with
  | true => exact hbody true
  | false =>
    rw [signChars, if_neg Bool.false_ne_true, List.nil_append, read?]
    · exact hbody false
    · intro ds hminus
      rw [(List.cons.inj hminus).1] at hd
      exact absurd hd (by decide)
    · intro ds hplus
      rw [(List.cons.inj hplus).1] at hd
      exact absurd hd (by decide)

theorem ofMagnitude_ne_nan (negative : Bool) (magnitude : Nat) :
    ofMagnitude negative magnitude ≠ .nan := by
  rw [ofMagnitude]
  split <;> exact nofun

theorem ofRatio_ne_nan (negative : Bool) (num den : Nat) : ofRatio negative num den ≠ .nan := by
  rw [ofRatio]
  split
  · exact nofun
  · exact ofMagnitude_ne_nan _ _

/-- A decimal numeral is read as a number, if maybe an infinite one. -/
theorem ofDecimal_ne_nan (negative : Bool) (digits : Nat) (exponent : Int) :
    ofDecimal negative digits exponent ≠ .nan := by
  rw [ofDecimal]
  split
  · exact nofun
  · dsimp only
    split
    · exact nofun
    · split
      · exact nofun
      · exact ofRatio_ne_nan _ _ _

end Real64

namespace Schema

/-- The digits of a decimal before and behind its point: one digit, or several without a leading zero,
and six places. -/
structure DecimalDigits (digit : Char → Bool) (whole places : List Char) : Prop where
  wholeDigits : ∀ c ∈ whole, digit c = true
  placeDigits : ∀ c ∈ places, digit c = true
  six : places.length = 6
  leading : whole.length = 1 ∨ 2 ≤ whole.length ∧ ∃ d, whole.head? = some d ∧ '1' ≤ d ∧ d ≤ '9'

/-- Whether a text is a decimal with an optional minus, its digits of one class. -/
def IsDecimalIn (digit : Char → Bool) (s : String) : Prop :=
  ∃ negative whole places, DecimalDigits digit whole places ∧
    s.toList = signChars negative ++ (whole ++ '.' :: places)

def decimalValue (negative : Bool) (whole places : List Char) : Real64 :=
  .ofDecimal negative (Nat.ofDigitChars 10 (whole ++ places) 0) (-6)

variable {digit : Char → Bool} {negative : Bool} {whole places : List Char} {s : String}

theorem DecimalDigits.exists_cons (h : DecimalDigits digit whole places) :
    ∃ d ds, whole = d :: ds ∧ digit d = true := by
  cases whole with
  | nil =>
    rcases h.leading with hlength | ⟨hlength, -⟩ <;> simp at hlength
  | cons d ds => exact ⟨d, ds, rfl, h.wholeDigits d List.mem_cons_self⟩

theorem decimalDigits_iff : DecimalDigits isDecimalDigit whole places ↔
    (whole.all isDecimalDigit && places.all isDecimalDigit && places.length == 6 &&
      (whole.length == 1 || (2 ≤ whole.length && whole.head?.any fun c => '1' ≤ c && c ≤ '9'))) =
        true := by
  simp only [Bool.and_eq_true, Bool.or_eq_true, List.all_eq_true, beq_iff_eq, decide_eq_true_eq,
    Option.any_eq_true]
  exact ⟨fun h => ⟨⟨⟨h.wholeDigits, h.placeDigits⟩, h.six⟩, h.leading⟩,
    fun h => ⟨h.1.1.1, h.1.1.2, h.1.2, h.2⟩⟩

theorem isDecimal_iff_split : isDecimal s = true ↔ ∃ whole places,
    splitAtFirst '.' (dropSign s.toList) = some (whole, places) ∧
      DecimalDigits isDecimalDigit whole places := by
  unfold isDecimal
  extract_lets body
  have hbody : body = dropSign s.toList := rfl
  rw [hbody]
  cases splitAtFirst '.' (dropSign s.toList) with
  | none => simp
  | some parts =>
    obtain ⟨whole, places⟩ := parts
    refine decimalDigits_iff.symm.trans ⟨fun h => ⟨whole, places, rfl, h⟩, ?_⟩
    rintro ⟨_, _, ⟨⟩, h⟩
    exact h

theorem isDecimal_iff : isDecimal s = true ↔ IsDecimalIn isDecimalDigit s := by
  rw [isDecimal_iff_split]
  constructor
  · rintro ⟨whole, places, hsplit, hdigits⟩
    obtain ⟨negative, hs⟩ := exists_sign s.toList
    rw [append_of_splitAtFirst hsplit] at hs
    exact ⟨negative, whole, places, hdigits, hs⟩
  · rintro ⟨negative, whole, places, hdigits, hs⟩
    refine ⟨whole, places, ?_, hdigits⟩
    have hpoint : '.' ∉ whole := fun hmem =>
      absurd (hdigits.wholeDigits _ hmem) (by decide)
    obtain ⟨d, ds, rfl, hd⟩ := hdigits.exists_cons
    have hminus : d ≠ '-' := by
      rintro rfl
      exact absurd hd (by decide)
    rw [hs, List.cons_append, dropSign_append negative hminus, ← List.cons_append,
      splitAtFirst_append hpoint]

theorem numeric?_of_ascii (h : DecimalDigits isAsciiDigit whole places)
    (hs : s.toList = signChars negative ++ (whole ++ '.' :: places)) :
    ScalarType.decimal.numeric? (.string s) = some (decimalValue negative whole places) := by
  obtain ⟨d, ds, rfl, hd⟩ := h.exists_cons
  rw [ScalarType.numeric?, hs, List.cons_append,
    Real64.read?_of_point (isDecimalDigit_of_isAsciiDigit hd) (by simp), ← List.cons_append,
    Real64.readUnsigned?, Real64.mantissa?_of_point h.wholeDigits (List.cons_ne_nil d ds),
    List.takeWhile_eq_self_iff.2 h.placeDigits, List.dropWhile_eq_nil_iff.2 h.placeDigits]
  simp [decimalValue, h.six]

/-- A decimal with other digits is not read as a number. -/
theorem numeric?_of_not_ascii (hdecimal : isDecimal s = true) (hascii : ¬ IsDecimalIn isAsciiDigit s) :
    ScalarType.decimal.numeric? (.string s) = none := by
  obtain ⟨negative, whole, places, h, hs⟩ := isDecimal_iff.1 hdecimal
  obtain ⟨d, ds, rfl, hd⟩ := h.exists_cons
  have hne {c e : Char} (hc : isDecimalDigit c = true) (he : isDecimalDigit e = false) : c ≠ e := by
    rintro rfl
    cases hc.symm.trans he
  rw [ScalarType.numeric?, hs, List.cons_append, Real64.read?_of_point hd (by simp),
    ← List.cons_append]
  -- reading stops at the first digit that is no ASCII digit, before or behind the point
  cases hwhole : (d :: ds).dropWhile isAsciiDigit with
  | cons c rest =>
    have hc : isDecimalDigit c = true :=
      h.wholeDigits c ((List.dropWhile_suffix _).subset (hwhole ▸ List.mem_cons_self))
    have hdrop : (d :: ds ++ '.' :: places).dropWhile isAsciiDigit =
        c :: (rest ++ '.' :: places) := by
      rw [List.dropWhile_append, hwhole]
      rfl
    rcases Real64.mantissa?_of_stop hdrop (hne hc (by decide)) with hnone | hstop
    · rw [Real64.readUnsigned?, hnone]
      rfl
    · exact Real64.readUnsigned?_eq_none_of_mantissa? hstop (hne hc (by decide)) (hne hc (by decide))
  | nil =>
    have hwhole := List.dropWhile_eq_nil_iff.1 hwhole
    cases hplaces : places.dropWhile isAsciiDigit with
    | cons c rest =>
      have hc : isDecimalDigit c = true :=
        h.placeDigits c ((List.dropWhile_suffix _).subset (hplaces ▸ List.mem_cons_self))
      have hstop := Real64.mantissa?_of_point hwhole (List.cons_ne_nil d ds) places
      rw [hplaces] at hstop
      exact Real64.readUnsigned?_eq_none_of_mantissa? hstop (hne hc (by decide)) (hne hc (by decide))
    | nil =>
      exact absurd ⟨negative, d :: ds, places,
        ⟨hwhole, List.dropWhile_eq_nil_iff.1 hplaces, h.six, h.leading⟩, hs⟩ hascii

namespace Constraints

variable {c : Constraints} {v : Json} {x least most : Real64}

theorem checkRange_of_below (hminimum : c.minimum = some least) (h : x.lt least = true) :
    c.checkRange v x = .error (.belowMinimum v least) := by
  rw [checkRange, hminimum, Option.filter_some_pos h]

theorem checkRange_of_above (hminimum : ∀ least, c.minimum = some least → x.lt least = false)
    (hmaximum : c.maximum = some most) (h : most.lt x = true) :
    c.checkRange v x = .error (.aboveMaximum v most) := by
  have hnone : c.minimum.filter (x.lt ·) = none := by
    simpa [Option.filter_eq_none_iff] using hminimum
  have hsome : c.maximum.filter (·.lt x) = some most := by simp [hmaximum, h]
  rw [checkRange, hnone, hsome]

end Constraints

namespace Field

def withBounds (f : Field) (minimum maximum : Option Real64) : Field :=
  { f with constraints := { f.constraints with minimum, maximum } }

/-- Whatever the bounds of a field are, a value is judged as if there were none. -/
def IgnoresBounds (f : Field) (v : Json) : Prop := ∀ minimum maximum,
  (f.withBounds minimum maximum).checkConstraints v = (f.withBounds none none).checkConstraints v

/-- Whatever the bounds of a field are, a value is judged by comparing a number with them: it is refused
with the bound that the number misses, and if the number keeps within the bounds it is accepted as if
there were none. -/
structure Compares (f : Field) (v : Json) (x : Real64) : Prop where
  accepted : ∀ minimum maximum, (f.withBounds minimum maximum).checkConstraints v = .ok () ↔
    ((∀ least, minimum = some least → x.lt least = false) ∧
      ∀ most, maximum = some most → most.lt x = false) ∧
      (f.withBounds none none).checkConstraints v = .ok ()
  belowMinimum : ∀ least maximum, x.lt least = true →
    (f.withBounds (some least) maximum).checkConstraints v = .error (.belowMinimum v least)
  aboveMaximum : ∀ minimum most, (∀ least, minimum = some least → x.lt least = false) →
    most.lt x = true →
      (f.withBounds minimum (some most)).checkConstraints v = .error (.aboveMaximum v most)

variable {f : Field} {t : ScalarType} {v : Json} {x : Real64}

theorem checkConstraints_withBounds (htype : f.type = .scalar t)
    (hallowed : f.constraints.allows v = true) (minimum maximum : Option Real64) :
    (f.withBounds minimum maximum).checkConstraints v =
      checkScalar { f.constraints with minimum, maximum } t v := by
  rw [checkConstraints_of_scalar (f := f.withBounds minimum maximum) htype]
  exact if_pos hallowed

/-- A value that stands for no number is not compared. -/
theorem ignoresBounds_of_numeric? (htype : f.type = .scalar t)
    (hallowed : f.constraints.allows v = true) (hv : t.numeric? v = none) : f.IgnoresBounds v := by
  intro minimum maximum
  rw [checkConstraints_withBounds htype hallowed, checkConstraints_withBounds htype hallowed]
  simp only [checkScalar, hv]
  rfl

/-- A value that stands for a number is compared with the bounds before anything else is asked. -/
theorem checkConstraints_of_numeric? (htype : f.type = .scalar t)
    (hallowed : f.constraints.allows v = true) (hv : t.numeric? v = some x)
    (minimum maximum : Option Real64) : (f.withBounds minimum maximum).checkConstraints v =
      ({ f.constraints with minimum, maximum } : Constraints).checkRange v x >>= fun _ =>
        (f.withBounds none none).checkConstraints v := by
  rw [checkConstraints_withBounds htype hallowed, checkConstraints_withBounds htype hallowed]
  simp only [checkScalar, hv]
  rfl

theorem compares_of_numeric? (htype : f.type = .scalar t)
    (hallowed : f.constraints.allows v = true) (hv : t.numeric? v = some x) : f.Compares v x where
  accepted minimum maximum := by
    rw [checkConstraints_of_numeric? htype hallowed hv, check_bind_eq_ok_iff,
      Constraints.checkRange_eq_ok_iff]
  belowMinimum least maximum hbelow := by
    rw [checkConstraints_of_numeric? htype hallowed hv,
      Constraints.checkRange_of_below rfl hbelow]
    rfl
  aboveMaximum minimum most hminimum habove := by
    rw [checkConstraints_of_numeric? htype hallowed hv,
      Constraints.checkRange_of_above hminimum rfl habove]
    rfl

/-- No value is both compared and ignored: a number misses some bounds, and it is told which. -/
theorem Compares.not_ignoresBounds (h : f.Compares v x) (hx : x ≠ .nan) : ¬ f.IgnoresBounds v := by
  intro hignores
  have hbelow {least least' : Real64} (hleast : x.lt least = true) (hleast' : x.lt least' = true) :
      least = least' := by
    have heq := (hignores (some least) none).trans (hignores (some least') none).symm
    rw [h.belowMinimum least none hleast, h.belowMinimum least' none hleast'] at heq
    cases heq
    rfl
  have habove {most most' : Real64} (hmost : most.lt x = true) (hmost' : most'.lt x = true) :
      most = most' := by
    have heq := (hignores none (some most)).trans (hignores none (some most')).symm
    rw [h.aboveMaximum none most nofun hmost, h.aboveMaximum none most' nofun hmost'] at heq
    cases heq
    rfl
  cases x with
  | nan => exact hx rfl
  | infinity negative =>
    cases negative with
    | true => cases @hbelow (.finite (.zero true)) (.infinity false) rfl rfl
    | false => cases @habove (.finite (.zero true)) (.infinity true) rfl rfl
  | finite y =>
    have heq := (hignores (some (.infinity false)) none).trans
      (hignores none (some (.infinity true))).symm
    rw [h.belowMinimum _ none rfl, h.aboveMaximum none _ nofun rfl] at heq
    cases heq

end Field

/-- The decimals are the texts with an optional minus, one digit or several without a leading zero, a
point and six digits, the digits those of any script. In a field of decimals one with ASCII digits is
compared with the bounds as the number it denotes, and any other one is judged as if there were no
bounds. -/
theorem decimal_compared_iff_ascii (s : String) :
    (isDecimal s = true ↔ IsDecimalIn isDecimalDigit s) ∧
      ∀ f : Field, f.type = .scalar .decimal → f.constraints.allows (.string s) = true →
        (∀ negative whole places, DecimalDigits isAsciiDigit whole places →
          s.toList = signChars negative ++ (whole ++ '.' :: places) →
            f.Compares (.string s) (decimalValue negative whole places)) ∧
        (isDecimal s = true →
          (f.IgnoresBounds (.string s) ↔ ¬ IsDecimalIn isAsciiDigit s)) := by
  refine ⟨isDecimal_iff, fun f htype hallowed => ?_⟩
  have hcompares {negative : Bool} {whole places : List Char}
      (hdigits : DecimalDigits isAsciiDigit whole places)
      (hs : s.toList = signChars negative ++ (whole ++ '.' :: places)) :
      f.Compares (.string s) (decimalValue negative whole places) :=
    Field.compares_of_numeric? htype hallowed (numeric?_of_ascii hdigits hs)
  refine ⟨fun _ _ _ => hcompares, fun hs => ⟨?_, ?_⟩⟩
  · rintro hignores ⟨negative, whole, places, hdigits, hs⟩
    exact (hcompares hdigits hs).not_ignoresBounds (Real64.ofDecimal_ne_nan _ _ _) hignores
  · intro hascii
    exact Field.ignoresBounds_of_numeric? htype hallowed (numeric?_of_not_ascii hs hascii)

def priceField : Field := { collection := "ticket", name := "price", type := .scalar .decimal }

theorem decimal_compared_of_twelveAndAHalf :
    let ten := Real64.ofRatio false 10 1
    isDecimal "12.500000" = true ∧
      (priceField.withBounds none (some ten)).checkConstraints (.string "12.500000") =
        .error (.aboveMaximum (.string "12.500000") ten) := by
  have h := decimal_compared_iff_ascii "12.500000"
  have hdigits : DecimalDigits isAsciiDigit ['1', '2'] ['5', '0', '0', '0', '0', '0'] :=
    ⟨List.all_eq_true.1 rfl, List.all_eq_true.1 rfl, rfl,
      .inr ⟨by decide, '1', rfl, by decide, by decide⟩⟩
  have hcompares := (h.2 priceField rfl rfl).1 false _ _ hdigits (by decide)
  exact ⟨by decide +kernel, hcompares.aboveMaximum none _ nofun (by decide +kernel)⟩

/-- Three, with the digit of another script in front of the point, passes a maximum of one. -/
theorem arabicThree_passes_maximum :
    let one := Real64.ofRatio false 1 1
    isDecimal "\u0663.000000" = true ∧ ¬ IsDecimalIn isAsciiDigit "\u0663.000000" ∧
      (priceField.withBounds none (some one)).checkConstraints (.string "\u0663.000000") = .ok () ∧
      (priceField.withBounds none (some one)).checkConstraints (.string "3.000000") =
        .error (.aboveMaximum (.string "3.000000") one) := by
  have hunread : ScalarType.decimal.numeric? (.string "\u0663.000000") = none := by decide +kernel
  refine ⟨by decide +kernel, ?_, by rfl, by rfl⟩
  rintro ⟨negative, whole, places, hdigits, hs⟩
  rw [numeric?_of_ascii hdigits hs] at hunread
  cases hunread

end Schema

end MeetingLedger
