import MeetingLedger.Proofs.Markup.Attributes
import MeetingLedger.Proofs.Text.Encoding

/-!
# The places of attributes

The attribute parser as a walk over the bytes of a text, with the places at which it cuts. The walk
comes forward with every attribute, cuts at boundaries of characters only and finds the attributes
that are read from the characters. These make up the whole text, save for blanks and slashes between
them.
-/

namespace MeetingLedger.Markup.Attribute

/-- The places of an attribute: where it starts, where its name stops, between which places its
value stands and where all of it stops. -/
structure Span where
  start : Nat
  nameStop : Nat
  value : Option (Nat × Nat)
  stop : Nat

def Span.places (span : Span) : List Nat :=
  [span.start, span.nameStop, span.stop] ++ span.value.elim [] fun value => [value.1, value.2]

/-- The places of a value behind its opening quote, and where the walk goes on. -/
def quotedSpan (bytes : List UInt8) (quote : Char) (first : Nat) : (Nat × Nat) × Nat :=
  let last := advance (· != quote) bytes first
  ((first, last), min (last + 1) bytes.length)

def valueSpan (bytes : List UInt8) (i : Nat) : (Nat × Nat) × Nat :=
  if charAt? bytes i = some '"' then quotedSpan bytes '"' (i + 1)
  else if charAt? bytes i = some '\'' then quotedSpan bytes '\'' (i + 1)
  else
    let last := advance (!isAsciiBlank ·) bytes i
    ((i, last), last)

def spanAt (bytes : List UInt8) (i : Nat) : Span :=
  let nameStop := advance isNameChar bytes i
  let j := advance isAsciiBlank bytes nameStop
  if charAt? bytes j = some '=' then
    let value := valueSpan bytes (advance isAsciiBlank bytes (j + 1))
    ⟨i, nameStop, some value.1, value.2⟩
  else ⟨i, nameStop, none, nameStop⟩

section Progress

variable {bytes : List UInt8} {i : Nat}

theorem quotedSpan_bounds (quote : Char) (h : i < bytes.length) :
    i < (quotedSpan bytes quote (i + 1)).2 ∧
      (quotedSpan bytes quote (i + 1)).2 ≤ bytes.length := by
  have hlast := le_advance (· != quote) bytes (i + 1)
  simp only [quotedSpan]
  omega

theorem valueSpan_bounds (h : i ≤ bytes.length) :
    i ≤ (valueSpan bytes i).2 ∧ (valueSpan bytes i).2 ≤ bytes.length := by
  rw [valueSpan]
  split
  · rename_i hquote
    have hspan := quotedSpan_bounds '"' (lt_of_charAt? hquote)
    omega
  · split
    · rename_i hquote
      have hspan := quotedSpan_bounds '\'' (lt_of_charAt? hquote)
      omega
    · exact ⟨le_advance _ bytes i, advance_le h⟩

/-- With every attribute the walk comes forward, and it does not leave the text. -/
theorem spanAt_bounds (h : i < bytes.length) (hgap : isGap (Char.ofUInt8 bytes[i]) = false) :
    i < (spanAt bytes i).stop ∧ (spanAt bytes i).stop ≤ bytes.length := by
  have hname := le_advance isNameChar bytes i
  have hname_le := advance_le (p := isNameChar) (Nat.le_of_lt h)
  have hblanks := le_advance isAsciiBlank bytes (advance isNameChar bytes i)
  rw [spanAt]
  dsimp only
  split
  · rename_i hassign
    have hlt := lt_of_charAt? hassign
    have hafter := le_advance isAsciiBlank bytes
      (advance isAsciiBlank bytes (advance isNameChar bytes i) + 1)
    have hvalue := valueSpan_bounds (advance_le (p := isAsciiBlank) (show _ + 1 ≤ _ from hlt))
    dsimp only
    omega
  · rename_i hassign
    -- A byte that starts no name is an equals sign, so that there is a value.
    have hfirst : isNameChar (Char.ofUInt8 bytes[i]) = true := by
      by_contra hnot
      have hstop := advance_of_not h (by simpa using hnot)
      have hequals : Char.ofUInt8 bytes[i] = '=' := by simpa [isNameChar, hgap] using hnot
      have hblank : isAsciiBlank (Char.ofUInt8 bytes[i]) = false := by rw [hequals]; decide
      rw [hstop, advance_of_not h hblank, charAt?_of_lt h, hequals] at hassign
      exact hassign rfl
    exact ⟨lt_advance h hfirst, hname_le⟩

end Progress

def spans (bytes : List UInt8) (i : Nat) : List Span :=
  if h : i < bytes.length then
    if hgap : isGap (Char.ofUInt8 bytes[i]) = true then spans bytes (i + 1)
    else
      have := (spanAt_bounds h (by simpa using hgap)).1
      spanAt bytes i :: spans bytes (spanAt bytes i).stop
  else []
termination_by bytes.length - i

section Walk

variable {bytes : List UInt8} {i : Nat} {c : Char}

theorem spans_of_none (h : charAt? bytes i = none) : spans bytes i = [] := by
  rw [spans, dif_neg]
  intro hlt
  rw [charAt?_of_lt hlt] at h
  cases h

theorem spans_of_gap (h : charAt? bytes i = some c) (hc : isGap c = true) :
    spans bytes i = spans bytes (i + 1) := by
  have hlt := lt_of_charAt? h
  rw [charAt?_of_lt hlt, Option.some_inj] at h
  rw [spans, dif_pos hlt, dif_pos (by rw [h, hc])]

theorem spans_of_not_gap (h : charAt? bytes i = some c) (hc : isGap c = false) :
    spans bytes i = spanAt bytes i :: spans bytes (spanAt bytes i).stop := by
  have hlt := lt_of_charAt? h
  rw [charAt?_of_lt hlt, Option.some_inj] at h
  rw [spans, dif_pos hlt, dif_neg (by simp [h, hc])]

end Walk

/-- The attribute between its places in a text, `none` if one of them is no boundary of
characters. -/
def ofSpan? (text : List Char) (span : Span) : Option Attribute := do
  let name ← slice? text span.start span.nameStop
  let source ← slice? text span.start span.stop
  match span.value with
  | none => some ⟨String.ofList (name.map Char.toLower), none, source⟩
  | some (first, last) =>
    let v ← slice? text first last
    some ⟨String.ofList (name.map Char.toLower), some v, source⟩

/-- A text that is made up of gaps and the texts of attributes, in order. -/
inductive Tiles : List Char → List Attribute → Prop
  | nil {gap : List Char} (hgap : ∀ c ∈ gap, isGap c = true) : Tiles gap []
  | cons {gap rest : List Char} {a : Attribute} {as : List Attribute}
      (hgap : ∀ c ∈ gap, isGap c = true) (hsource : a.source ≠ []) (htiles : Tiles rest as) :
      Tiles (gap ++ (a.source ++ rest)) (a :: as)

theorem Tiles.cons_gap {c : Char} {cs : List Char} {as : List Attribute} (h : Tiles cs as)
    (hc : isGap c = true) : Tiles (c :: cs) as := by
  cases h with
  | nil hgap => exact .nil (List.forall_mem_cons.2 ⟨hc, hgap⟩)
  | cons hgap hsource htiles => exact .cons (List.forall_mem_cons.2 ⟨hc, hgap⟩) hsource htiles

section Read

variable {text front rest : List Char}

theorem isAsciiTest_isGap : IsAsciiTest isGap :=
  isAsciiTest_isAsciiBlank.or (isAsciiTest_beq (by decide))

theorem ascii_of_isGap {c : Char} (h : isGap c = true) : c.toNat < 128 := by
  simp only [isGap, isAsciiBlank, Bool.or_eq_true, beq_iff_eq] at h
  rcases h with ((((rfl | rfl) | rfl) | rfl) | rfl) | rfl <;> decide

theorem isAsciiTest_isNameChar : IsAsciiTest isNameChar :=
  isAsciiTest_isGap.not.and (isAsciiTest_beq (by decide)).not

theorem isAsciiTest_bne {quote : Char} (hquote : quote.toNat < 128) : IsAsciiTest (· != quote) :=
  (isAsciiTest_beq hquote).not

theorem quotedSpan_utf8 {quote : Char} {v back : List Char} (hquote : quote.toNat < 128)
    (hv : quote ∉ v) (htext : text = front ++ quote :: (v ++ back))
    (hback : back.head?.all (· == quote) = true) :
    quotedSpan (utf8 text) quote (width front + 1) =
      ((width (front ++ [quote]), width (front ++ ([quote] ++ v))),
        width (front ++ ([quote] ++ (v ++ back.take 1)))) := by
  have hone : width [quote] = 1 := width_singleton_of_ascii hquote
  have hfirst : width front + 1 = width (front ++ [quote]) := by rw [width_append, hone]
  have hsplit : text = front ++ [quote] ++ (v ++ back) := by simp [htext]
  have hlast := advance_utf8 (isAsciiTest_bne hquote) hsplit (bne_of_not_mem hv)
    (by simpa [bne] using hback)
  have hlength : (utf8 text).length = width front + 1 + width v + width back := by
    rw [hsplit, ← width]
    simp only [width_append, hone]
    omega
  -- The walk passes the closing quote, if there is one.
  have hstop : min (width front + 1 + width v + 1) (utf8 text).length =
      width front + 1 + width v + width (back.take 1) := by
    rw [hlength]
    cases back with
    | nil => simp
    | cons c back =>
      obtain rfl : c = quote := by simpa using hback
      have hpos := width_append [c] back
      simp only [List.take_succ_cons, List.take_zero, hone, List.singleton_append] at hpos ⊢
      omega
  rw [← hfirst] at hlast
  simp only [quotedSpan, hlast, width_append, hone, hstop, Prod.mk.injEq, true_and]
  omega

theorem valueSpan_of_quote {bytes : List UInt8} {i : Nat} {quote : Char}
    (hquote : quote = '"' ∨ quote = '\'') (h : charAt? bytes i = some quote) :
    valueSpan bytes i = quotedSpan bytes quote (i + 1) := by
  rcases hquote with rfl | rfl <;> simp [valueSpan, h]

/-- A value is found where it is read, within the text from which it is read. -/
theorem valueSpan_utf8 {v value : List Char} (h : ReadsValue v value rest)
    (htext : text = front ++ (value ++ rest)) :
    ∃ before after, value = before ++ (v ++ after) ∧
      valueSpan (utf8 text) (width front) =
        ((width (front ++ before), width (front ++ (before ++ v))), width (front ++ value)) := by
  have hat (quote : Char) (hquote : quote = '"' ∨ quote = '\'') :
      quote.toNat < 128 ∧
        (charAt? (utf8 text) (width front) = some quote ↔ (value ++ rest).head? = some quote) := by
    have hascii : quote.toNat < 128 := by rcases hquote with rfl | rfl <;> decide
    exact ⟨hascii, charAt?_eq_some_iff hascii htext⟩
  cases h with
  | @quoted quote v hquote hv rest =>
    have hspan := valueSpan_of_quote hquote ((hat quote hquote).2.2 rfl)
    have hsplit : text = front ++ quote :: (v ++ quote :: rest) := by simp [htext]
    have hquoted := quotedSpan_utf8 (hat quote hquote).1 hv hsplit (by simp)
    exact ⟨[quote], [quote], rfl, hspan.trans hquoted⟩
  | @unclosed quote v hquote hv =>
    have hspan := valueSpan_of_quote hquote ((hat quote hquote).2.2 rfl)
    have hsplit : text = front ++ quote :: (v ++ []) := by simpa using htext
    have hquoted := quotedSpan_utf8 (hat quote hquote).1 hv hsplit rfl
    exact ⟨[quote], [], by simp, by simpa using hspan.trans hquoted⟩
  | unquoted hhead hv hnone hrest =>
    have hnot (quote : Char) (hquote : quote = '"' ∨ quote = '\'')
        (hne : v.head? ≠ some quote) : charAt? (utf8 text) (width front) ≠ some quote := by
      rw [Ne, (hat quote hquote).2]
      cases v with
      | nil => simp [hnone rfl]
      | cons c v => simpa using hne
    have hlast := advance_utf8 isAsciiTest_isAsciiBlank.not htext
      (fun c hc => by simp [hv c hc]) (by simpa using hrest)
    refine ⟨[], [], by simp, ?_⟩
    rw [valueSpan, if_neg (hnot _ (.inl rfl) hhead.1), if_neg (hnot _ (.inr rfl) hhead.2), hlast]
    simp

theorem assignment_utf8 {before after : List Char} (hbefore : ∀ c ∈ before, isAsciiBlank c = true)
    (hafter : ∀ c ∈ after, isAsciiBlank c = true) (hrest : rest.head?.all (!isAsciiBlank ·) = true)
    (htext : text = front ++ (before ++ '=' :: (after ++ rest))) :
    let i := advance isAsciiBlank (utf8 text) (width front)
    charAt? (utf8 text) i = some '=' ∧
      advance isAsciiBlank (utf8 text) (i + 1) = width (front ++ (before ++ '=' :: after)) := by
  intro i
  have hi : i = width (front ++ before) := advance_utf8 isAsciiTest_isAsciiBlank htext hbefore rfl
  have hequals : text = front ++ before ++ '=' :: (after ++ rest) := by simpa using htext
  have hbehind : text = front ++ before ++ ['='] ++ (after ++ rest) := by simpa using htext
  have hnext : i + 1 = width (front ++ before ++ ['=']) := by
    rw [hi, width_append _ ['='], width_singleton_of_ascii (by decide)]
  constructor
  · rw [hi]
    exact (charAt?_eq_some_iff (by decide) hequals).2 rfl
  · rw [hnext, advance_utf8 isAsciiTest_isAsciiBlank hbehind hafter hrest]
    simp

/-- The walk finds an attribute where it is read, and goes on behind it. -/
theorem spanAt_utf8 {a : Attribute} (h : a.Reads rest)
    (htext : text = front ++ (a.source ++ rest)) :
    (spanAt (utf8 text) (width front)).stop = width (front ++ a.source) ∧
      ofSpan? text (spanAt (utf8 text) (width front)) = some a := by
  cases h with
  | @bare name _ hname hrest hassign =>
    have hstop := advance_utf8 isAsciiTest_isNameChar htext hname hrest
    have hblanks : text = front ++ name ++
        (rest.takeWhile isAsciiBlank ++ rest.dropWhile isAsciiBlank) := by
      rw [List.takeWhile_append_dropWhile, List.append_assoc]
      exact htext
    have hnext := advance_utf8 isAsciiTest_isAsciiBlank hblanks
      (fun c hc => List.mem_takeWhile_imp hc) (head?_all_dropWhile isAsciiBlank rest)
    rw [← List.append_assoc] at hblanks
    have hnone := (charAt?_eq_some_iff (d := '=') (by decide) hblanks).not.2 hassign
    rw [spanAt]
    simp only [hstop, hnext, if_neg hnone, ofSpan?, slice?_width htext]
    simp
  | @valued name before after v value _ hname hbefore hafter hvalue =>
    have hnamed : text = front ++ (name ++ (before ++ '=' :: (after ++ (value ++ rest)))) := by
      simpa using htext
    have hstop := advance_utf8 isAsciiTest_isNameChar hnamed hname
      (head?_before_value hbefore (after ++ (value ++ rest)))
    have hassign : text = front ++ name ++ (before ++ '=' :: (after ++ (value ++ rest))) := by
      simpa using htext
    obtain ⟨hequals, hstart⟩ := assignment_utf8 hbefore hafter hvalue.head? hassign
    have hvalued : text = front ++ name ++ (before ++ '=' :: after) ++ (value ++ rest) := by
      simpa using htext
    obtain ⟨opened, closed, hquotes, hspan⟩ := valueSpan_utf8 hvalue hvalued
    have hinner : text = front ++ name ++ (before ++ '=' :: after) ++ opened ++
        (v ++ (closed ++ rest)) := by
      simpa [hquotes] using htext
    have hwhole : front ++ name ++ (before ++ '=' :: after) ++ value =
        front ++ (name ++ (before ++ '=' :: (after ++ value))) := by simp
    rw [← List.append_assoc _ opened v, hwhole] at hspan
    rw [spanAt]
    simp only [hstop, if_pos hequals, hstart, hspan, ofSpan?, slice?_width hnamed,
      slice?_width htext, slice?_width hinner]
    simp

/-- At every place of a text the walk over the bytes reads the attributes that stand there. -/
theorem mapM_ofSpan?_spans (htext : text = front ++ rest) :
    (spans (utf8 text) (width front)).mapM (ofSpan? text) = some (attributes rest) := by
  fun_induction attributes rest generalizing front with
  | case1 =>
    rw [spans_of_none (by simp [htext, charAt?_utf8_nil])]
    rfl
  | case2 c cs hgap ih =>
    obtain ⟨b, hb, hat⟩ := charAt?_utf8_cons front c cs
    have hnext : width front + 1 = width (front ++ [c]) := by
      rw [width_append, width_singleton_of_ascii (ascii_of_isGap hgap)]
    rw [← htext] at hat
    rw [spans_of_gap hat (by rw [test_ofUInt8 isAsciiTest_isGap hb, hgap]), hnext]
    exact ih (by simp [htext])
  | case3 c cs hgap _ ih =>
    obtain ⟨b, hb, hat⟩ := charAt?_utf8_cons front c cs
    obtain ⟨hsplit, hreads⟩ := take_spec (c :: cs)
    have hpiece : text = front ++ ((take (c :: cs)).1.source ++ (take (c :: cs)).2) := by
      rw [← hsplit, htext]
    obtain ⟨hstop, hfound⟩ := spanAt_utf8 hreads hpiece
    have hrest := ih (by rw [hpiece, List.append_assoc])
    rw [← htext] at hat
    rw [spans_of_not_gap hat (by rw [test_ofUInt8 isAsciiTest_isGap hb]; simpa using hgap),
      List.mapM_cons, hfound, hstop, hrest]
    rfl

end Read

section Places

variable {bytes : List UInt8} {i : Nat} {text : List Char} {span : Span} {a : Attribute}

theorem isValid_of_ofSpan? {source : String} (h : ofSpan? source.toList span = some a) :
    ∀ place ∈ span.places, (⟨place⟩ : String.Pos.Raw).IsValid source := by
  simp only [ofSpan?, Option.bind_eq_bind, Option.bind_eq_some_iff] at h
  obtain ⟨name, hname, piece, hpiece, hvalue⟩ := h
  have hnamed := isValid_of_slice? hname
  have hwhole := isValid_of_slice? hpiece
  have houter : ∀ place ∈ [span.start, span.nameStop, span.stop],
      (⟨place⟩ : String.Pos.Raw).IsValid source := by
    simpa using ⟨hnamed.1, hnamed.2, hwhole.2⟩
  rw [Span.places, List.forall_mem_append]
  refine ⟨houter, ?_⟩
  cases hspan : span.value with
  | none => simp
  | some value =>
    rw [hspan] at hvalue
    obtain ⟨v, hv, -⟩ := Option.bind_eq_some_iff.1 hvalue
    simpa using isValid_of_slice? hv

theorem exists_of_mapM {spans : List Span} {as : List Attribute}
    (h : spans.mapM (ofSpan? text) = some as) (hspan : span ∈ spans) :
    ∃ a, ofSpan? text span = some a := by
  induction spans generalizing as with
  | nil => cases hspan
  | cons first spans ih =>
    simp only [List.mapM_cons, Option.bind_eq_bind, Option.bind_eq_some_iff] at h
    obtain ⟨a, ha, as, has, -⟩ := h
    rcases List.mem_cons.1 hspan with rfl | hspan
    · exact ⟨a, ha⟩
    · exact ih has hspan

theorem start_spanAt (bytes : List UInt8) (i : Nat) : (spanAt bytes i).start = i := by
  rw [spanAt]
  dsimp only
  split <;> rfl

theorem le_start_of_mem_spans (h : span ∈ spans bytes i) : i ≤ span.start := by
  fun_induction spans bytes i with
  | case1 i hlt hgap ih => exact Nat.le_of_lt (ih h)
  | case2 i hlt hgap hadvance ih =>
    rcases List.mem_cons.1 h with rfl | h
    · exact Nat.le_of_eq (start_spanAt bytes i).symm
    · exact Nat.le_trans (Nat.le_of_lt hadvance) (ih h)
  | case3 i hlt => cases h

/-- The attributes are found in order, and no two of them overlap. -/
theorem pairwise_spans (bytes : List UInt8) (i : Nat) :
    (spans bytes i).Pairwise fun span next => span.stop ≤ next.start := by
  fun_induction spans bytes i with
  | case1 i hlt hgap ih => exact ih
  | case2 i hlt hgap hadvance ih =>
    exact List.pairwise_cons.2 ⟨fun _ hnext => le_start_of_mem_spans hnext, ih⟩
  | case3 i hlt => exact List.Pairwise.nil

end Places

/-- Between the attributes stand only gaps. -/
theorem tiles_attributes (cs : List Char) : Tiles cs (attributes cs) := by
  fun_induction attributes cs with
  | case1 => exact .nil (List.forall_mem_nil _)
  | case2 c cs hgap ih => exact ih.cons_gap hgap
  | case3 c cs hgap _ ih =>
    obtain ⟨hsplit, -⟩ := take_spec (c :: cs)
    have hshorter := length_take_lt cs (by simpa using hgap)
    have hsource : (take (c :: cs)).1.source ≠ [] := by
      intro hempty
      rw [hempty, List.nil_append] at hsplit
      rw [← hsplit] at hshorter
      exact Nat.lt_irrefl _ hshorter
    have htiles := Tiles.cons (List.forall_mem_nil _) hsource ih
    rwa [List.nil_append, ← hsplit] at htiles

/-- The walk over the bytes of a text comes forward with every attribute and finds the attributes
that are read from the characters. It cuts at boundaries of characters only, in order and without
overlap, and nothing but gaps stands between the texts that it cuts out. -/
theorem walk_tiles_source (source : String) :
    (∀ i c, charAt? (bytesOf source) i = some c → isGap c = false →
      i < (spanAt (bytesOf source) i).stop ∧
        (spanAt (bytesOf source) i).stop ≤ (bytesOf source).length) ∧
    (spans (bytesOf source) 0).mapM (ofSpan? source.toList) = some (attributes source.toList) ∧
    (∀ span ∈ spans (bytesOf source) 0, ∀ place ∈ span.places,
      (⟨place⟩ : String.Pos.Raw).IsValid source) ∧
    ((spans (bytesOf source) 0).Pairwise fun span next => span.stop ≤ next.start) ∧
    Tiles source.toList (attributes source.toList) := by
  have hread : (spans (bytesOf source) 0).mapM (ofSpan? source.toList) =
      some (attributes source.toList) := by
    rw [bytesOf_eq_utf8]
    exact mapM_ofSpan?_spans (List.nil_append _).symm
  refine ⟨fun i c hat hgap => ?_, hread, fun span hspan => ?_, pairwise_spans _ 0,
    tiles_attributes _⟩
  · have hlt := lt_of_charAt? hat
    rw [charAt?_of_lt hlt, Option.some_inj] at hat
    exact spanAt_bounds hlt (by rw [hat, hgap])
  · obtain ⟨a, ha⟩ := exists_of_mapM hread hspan
    exact isValid_of_ofSpan? ha

/-- A name beyond ASCII, blanks around an equals sign and a quotation without a name and an end. -/
def unclosedQuote : String := "/ ü='a b'/c =d = \"é"

theorem walk_tiles_source_of_unclosedQuote :
    let bytes := bytesOf unclosedQuote
    (charAt? bytes 16 = some '=' ∧ isGap '=' = false ∧
      16 < (spanAt bytes 16).stop ∧ (spanAt bytes 16).stop ≤ bytes.length) ∧
    (spans bytes 0).map (fun span => (span.start, span.stop)) = [(2, 10), (11, 15), (16, 21)] ∧
    (attributes unclosedQuote.toList).map (fun a => String.ofList a.source) =
      ["ü='a b'", "c =d", "= \"é"] ∧
    Tiles unclosedQuote.toList (attributes unclosedQuote.toList) := by
  intro bytes
  have hwalk := walk_tiles_source unclosedQuote
  have hequals : charAt? bytes 16 = some '=' := by decide +kernel
  have hgap : isGap '=' = false := by decide
  exact ⟨⟨hequals, hgap, hwalk.1 16 '=' hequals hgap⟩, by decide +kernel, by decide +kernel,
    hwalk.2.2.2.2⟩

end MeetingLedger.Markup.Attribute
