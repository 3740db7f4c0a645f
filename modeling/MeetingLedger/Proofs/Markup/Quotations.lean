import MeetingLedger.Proofs.Markup.Rebuilt

/-!
# Quotations in tags

A reader of formatted texts who takes a quote for the start of a quotation only where a value starts,
as the parser of attributes does, and who ends a tag at the first bracket outside of such quotations.
The scanner takes every quote for the start of a quotation. The two end a tag at the same bracket
unless a quote stands in a name or in a value without quotes.
-/

namespace MeetingLedger.Markup

inductive Place where
  /-- In a name or between attributes. -/
  | loose
  /-- Behind an equals sign, before the value. -/
  | assigned
  /-- In a value without quotes. -/
  | bare
  /-- In a value that a quote opened. -/
  | quoted (quote : Char)

namespace Place

def next : Place → Char → Place
  | loose, c => if c = '=' then assigned else loose
  | assigned, c =>
    if isAsciiBlank c then assigned else if c = '"' || c = '\'' then quoted c else bare
  | bare, c => if isAsciiBlank c then loose else bare
  | quoted quote, c => if c = quote then loose else quoted quote

def quote? : Place → Option Char
  | quoted quote => some quote
  | _ => none

def after (p : Place) (cs : List Char) : Place := cs.foldl next p

/-- The part of a text that stands outside of quotations, without the quotes that open and close
them. -/
def outside : Place → List Char → List Char
  | _, [] => []
  | p, c :: cs =>
    if p.quote?.isSome || (p.next c).quote?.isSome then outside (p.next c) cs
    else c :: outside (p.next c) cs

def splitTag : Place → List Char → Option (List Char × List Char)
  | _, [] => none
  | p, c :: cs =>
    if c = '>' ∧ p.quote? = none then some ([], cs)
    else (splitTag (p.next c) cs).map fun (a, b) => (c :: a, b)

@[simp] theorem after_nil (p : Place) : p.after [] = p := rfl

@[simp] theorem after_cons (p : Place) (c : Char) (cs : List Char) :
    p.after (c :: cs) = (p.next c).after cs := rfl

@[simp] theorem after_append (p : Place) (cs ds : List Char) :
    p.after (cs ++ ds) = (p.after cs).after ds := List.foldl_append

@[simp] theorem outside_nil (p : Place) : p.outside [] = [] := by cases p <;> rfl

theorem outside_append (p : Place) (cs ds : List Char) :
    p.outside (cs ++ ds) = p.outside cs ++ (p.after cs).outside ds := by
  induction cs generalizing p with
  | nil => rw [outside_nil, List.nil_append, List.nil_append, after_nil]
  | cons c cs ih =>
    rw [List.cons_append, outside, outside, after_cons, ih]
    split
    · rfl
    · rfl

theorem isQuote_of_next {p : Place} {c : Char} (h : p.quote? = none)
    (hnext : (p.next c).quote? ≠ none) : (p.next c).quote? = some c ∧ (c = '"' ∨ c = '\'') := by
  cases p with
  | loose =>
    rw [next] at hnext
    split at hnext <;> exact absurd rfl hnext
  | assigned =>
    rw [next] at hnext ⊢
    split at hnext
    · exact absurd rfl hnext
    · split at hnext
      · rename_i hblank hquote
        rw [if_neg hblank, if_pos hquote]
        exact ⟨rfl, by simpa using hquote⟩
      · exact absurd rfl hnext
  | bare =>
    rw [next] at hnext
    split at hnext <;> exact absurd rfl hnext
  | quoted quote => cases h

theorem quote?_next_of_not_quote {p : Place} {c : Char} (h : p.quote? = none)
    (hc : c ≠ '"' ∧ c ≠ '\'') : (p.next c).quote? = none := by
  by_contra hnext
  exact (isQuote_of_next h hnext).2.elim hc.1 hc.2

theorem outside_cons_of_quoted (quote c : Char) (cs : List Char) :
    (quoted quote).outside (c :: cs) = ((quoted quote).next c).outside cs := by
  rw [outside]
  exact if_pos rfl

theorem outside_cons_of_opening {p : Place} {c : Char} (h : (p.next c).quote? ≠ none)
    (cs : List Char) : p.outside (c :: cs) = (p.next c).outside cs := by
  rw [outside, if_pos]
  rw [Option.isSome_iff_ne_none.2 h, Bool.or_true]

theorem outside_cons_of_none {p : Place} {c : Char} (h : p.quote? = none)
    (hnext : (p.next c).quote? = none) (cs : List Char) :
    p.outside (c :: cs) = c :: (p.next c).outside cs := by
  rw [outside, h, hnext]
  rfl

/-- A tag ends at the first bracket outside of quotations. -/
theorem splitTag_eq_some_iff {p : Place} {cs a b : List Char} :
    p.splitTag cs = some (a, b) ↔
      cs = a ++ '>' :: b ∧ '>' ∉ p.outside a ∧ (p.after a).quote? = none := by
  induction cs generalizing p a with
  | nil => cases p <;> simp [splitTag]
  | cons c cs ih =>
    rw [splitTag]
    by_cases hend : c = '>' ∧ p.quote? = none
    · obtain ⟨rfl, hquote⟩ := hend
      rw [if_pos ⟨rfl, hquote⟩]
      cases a with
      | nil => simp [hquote, eq_comm]
      | cons d a =>
        have hnext := quote?_next_of_not_quote hquote (c := '>') (by decide)
        constructor
        · rintro ⟨⟩
        · rintro ⟨heq, hout, -⟩
          cases heq
          rw [outside_cons_of_none hquote hnext] at hout
          exact absurd List.mem_cons_self hout
    · rw [if_neg hend, Option.map_eq_some_iff]
      cases a with
      | nil =>
        constructor
        · rintro ⟨_, _, heq⟩
          cases heq
        · rintro ⟨heq, -, hquote⟩
          cases heq
          exact absurd ⟨rfl, hquote⟩ hend
      | cons d a =>
        have hout : '>' ∉ p.outside (c :: a) ↔ '>' ∉ (p.next c).outside a := by
          rw [outside]
          split
          · exact Iff.rfl
          · rename_i hnone
            rw [Bool.or_eq_true, not_or, Option.not_isSome_iff_eq_none] at hnone
            have hc : '>' ≠ c := fun hc => hend ⟨hc.symm, hnone.1⟩
            rw [List.mem_cons, not_or]
            exact and_iff_right hc
        constructor
        · rintro ⟨⟨a', b'⟩, hsplit, heq⟩
          cases heq
          obtain ⟨rfl, hbrackets, hquote⟩ := ih.1 hsplit
          exact ⟨rfl, hout.2 hbrackets, hquote⟩
        · rintro ⟨heq, hbrackets, hquote⟩
          cases heq
          exact ⟨(a, b), ih.2 ⟨rfl, hout.1 hbrackets, hquote⟩, rfl⟩

/-- Without quotes outside of quotations the scanner counts the same quotations. -/
theorem quoteAfter_eq_some_iff {p : Place} {cs : List Char} {q : Option Char}
    (hloose : ∀ c ∈ p.outside cs, c ≠ '"' ∧ c ≠ '\'') :
    Token.quoteAfter p.quote? cs = some q ↔ '>' ∉ p.outside cs ∧ (p.after cs).quote? = q := by
  induction cs generalizing p with
  | nil =>
    cases p <;> simp [Token.quoteAfter]
  | cons c cs ih =>
    cases hquote : p.quote? with
    | some quote =>
      cases p with
      | quoted quote' =>
        cases hquote
        have hnext : ((quoted quote).next c).quote? = if c = quote then none else some quote := by
          rw [next]
          split <;> rfl
        rw [outside_cons_of_quoted] at hloose ⊢
        rw [Token.quoteAfter, ← hnext, ih hloose, after_cons]
      | _ => cases hquote
    | none =>
      by_cases hnext : (p.next c).quote? = none
      · rw [outside_cons_of_none hquote hnext] at hloose ⊢
        obtain ⟨hc, hrest⟩ := List.forall_mem_cons.1 hloose
        have hstart : ¬ (c = '"' || c = '\'') = true := by simp [hc.1, hc.2]
        rw [Token.quoteAfter, if_neg hstart]
        by_cases hbracket : c = '>'
        · simp [hbracket]
        · rw [if_neg hbracket, ← hnext, ih hrest, after_cons, List.mem_cons, not_or]
          exact and_congr_left fun _ => (and_iff_right (Ne.symm hbracket)).symm
      · obtain ⟨hopen, hc⟩ := isQuote_of_next hquote hnext
        have hbracket : c ≠ '>' := by
          rcases hc with rfl | rfl <;> decide
        have hstart : (c = '"' || c = '\'') = true := by simpa using hc
        rw [outside_cons_of_opening hnext] at hloose ⊢
        rw [Token.quoteAfter, if_neg hbracket, if_pos hstart, ← hopen, ih hloose, after_cons]

/-- A text that does not move the reader stands outside of quotations. -/
theorem outside_of_stays {p : Place} (hquote : p.quote? = none) {cs : List Char}
    (h : ∀ c ∈ cs, p.next c = p) : p.outside cs = cs ∧ p.after cs = p := by
  induction cs with
  | nil => exact ⟨outside_nil p, rfl⟩
  | cons c cs ih =>
    obtain ⟨hc, hcs⟩ := List.forall_mem_cons.1 h
    obtain ⟨hout, hafter⟩ := ih hcs
    rw [outside_cons_of_none hquote (by rw [hc, hquote]), after_cons, hc, hout, hafter]
    exact ⟨rfl, rfl⟩

theorem outside_of_not_mem {quote : Char} {v : List Char} (h : quote ∉ v) :
    (quoted quote).outside v = [] ∧ (quoted quote).after v = quoted quote := by
  induction v with
  | nil => exact ⟨outside_nil _, rfl⟩
  | cons c v ih =>
    rw [List.mem_cons, not_or] at h
    have hnext : (quoted quote).next c = quoted quote := if_neg (Ne.symm h.1)
    rw [outside_cons_of_quoted, after_cons, hnext]
    exact ih h.2

theorem loose_of_name {name : List Char} (h : ∀ c ∈ name, c ≠ '=') :
    loose.outside name = name ∧ loose.after name = loose :=
  outside_of_stays rfl fun c hc => if_neg (h c hc)

theorem assigned_of_blanks {bs : List Char} (h : ∀ c ∈ bs, isAsciiBlank c = true) :
    assigned.outside bs = bs ∧ assigned.after bs = assigned :=
  outside_of_stays rfl fun c hc => if_pos (h c hc)

theorem bare_of_value {v : List Char} (h : ∀ c ∈ v, isAsciiBlank c = false) :
    bare.outside v = v ∧ bare.after v = bare :=
  outside_of_stays rfl fun c hc => if_neg (by rw [h c hc]; decide)

/-- Whether what follows is read as it is between attributes. -/
def Settles (p : Place) (rest : List Char) : Prop :=
  p.outside rest = loose.outside rest ∧ (p.after rest).quote? = (loose.after rest).quote?

theorem settles_nil {p : Place} (h : p.quote? = none) : p.Settles [] := by
  rw [Settles, outside_nil, outside_nil, after_nil, h]
  exact ⟨rfl, rfl⟩

theorem settles_bare {rest : List Char} (h : rest.head?.all isAsciiBlank = true) :
    bare.Settles rest := by
  cases rest with
  | nil => exact settles_nil rfl
  | cons c rest =>
    have hc : isAsciiBlank c = true := h
    have hassign : c ≠ '=' := by
      rintro rfl
      exact absurd hc (by decide)
    have hbare : bare.next c = loose := if_pos hc
    have hloose : loose.next c = loose := if_neg hassign
    rw [Settles, outside_cons_of_none rfl (by rw [hbare]; rfl),
      outside_cons_of_none rfl (by rw [hloose]; rfl), after_cons, after_cons, hbare, hloose]
    exact ⟨rfl, rfl⟩

end Place

namespace Attribute

def valueText (a : Attribute) : List Char :=
  ((a.source.dropWhile (· != '=')).drop 1).dropWhile isAsciiBlank

def quoteOf? (cs : List Char) : Option Char := cs.head?.filter fun c => c = '"' || c = '\''

/-- Whether a text starts with a quotation that is not closed. -/
def isUnclosed (cs : List Char) : Bool := (quoteOf? cs).any fun quote => !cs.tail.contains quote

/-- The text of an attribute without a value in quotes. -/
def unquoted (a : Attribute) : List Char :=
  if (quoteOf? a.valueText).isSome then a.source.take (a.source.length - a.valueText.length)
  else a.source

section Read

variable {a : Attribute} {rest : List Char}

theorem ne_assign_of_isNameChar {c : Char} (h : isNameChar c = true) : c ≠ '=' := by
  rintro rfl
  exact absurd h (by decide)

theorem ne_assign_of_isAsciiBlank {c : Char} (h : isAsciiBlank c = true) : c ≠ '=' := by
  rintro rfl
  exact absurd h (by decide)

theorem quoteOf?_cons {quote : Char} (h : quote = '"' ∨ quote = '\'') (cs : List Char) :
    quoteOf? (quote :: cs) = some quote := by
  rcases h with rfl | rfl <;> rfl

theorem quoteOf?_eq_none {v : List Char} (h : v.head? ≠ some '"' ∧ v.head? ≠ some '\'') :
    quoteOf? v = none := by
  cases v with
  | nil => rfl
  | cons c v =>
    simp only [List.head?_cons, ne_eq, Option.some.injEq] at h
    simp [quoteOf?, h.1, h.2]

/-- Behind an equals sign the reader finds a quotation where the parser finds one. -/
theorem ReadsValue.outside_append {v value : List Char} (h : ReadsValue v value rest) :
    Place.assigned.outside (value ++ rest) =
        (if (quoteOf? value).isSome then [] else value) ++ Place.loose.outside rest ∧
      ((Place.assigned.after (value ++ rest)).quote? = none ↔
        isUnclosed value = false ∧ (Place.loose.after rest).quote? = none) := by
  have hopens {quote : Char} (hquote : quote = '"' ∨ quote = '\'') :
      Place.assigned.next quote = .quoted quote := by
    rcases hquote with rfl | rfl <;> rfl
  cases h with
  | @quoted quote v hquote hv =>
    obtain ⟨hout, hafter⟩ := Place.outside_of_not_mem hv
    have hcloses : (Place.quoted quote).next quote = .loose := if_pos rfl
    rw [List.cons_append, List.append_assoc, List.singleton_append, quoteOf?_cons hquote,
      Place.outside_cons_of_opening (by rw [hopens hquote]; nofun), Place.after_cons, hopens hquote,
      Place.outside_append, Place.after_append, hout, hafter, Place.outside_cons_of_quoted,
      Place.after_cons, hcloses, isUnclosed, quoteOf?_cons hquote]
    simp
  | @unclosed quote _ hquote hv =>
    obtain ⟨hout, hafter⟩ := Place.outside_of_not_mem hv
    rw [List.append_nil, quoteOf?_cons hquote,
      Place.outside_cons_of_opening (by rw [hopens hquote]; nofun), Place.after_cons, hopens hquote,
      hout, hafter, isUnclosed, quoteOf?_cons hquote]
    simp [hv, Place.quote?]
  | unquoted hhead hv hnone hrest =>
    rw [isUnclosed, quoteOf?_eq_none hhead]
    cases v with
    | nil =>
      rw [hnone rfl]
      simp [Place.quote?]
    | cons c v =>
      obtain ⟨hc, hv⟩ := List.forall_mem_cons.1 hv
      obtain ⟨hout, hafter⟩ := Place.bare_of_value hv
      obtain ⟨hsettled, hquote⟩ := Place.settles_bare hrest
      have hplain : ¬ (c = '"' || c = '\'') = true := by simpa using hhead
      have hnext : Place.assigned.next c = .bare := by
        rw [Place.next, if_neg (by rw [hc]; decide), if_neg hplain]
      rw [List.cons_append, Place.outside_cons_of_none rfl (by rw [hnext]; rfl), Place.after_cons,
        hnext, Place.outside_append, Place.after_append, hout, hafter, hsettled, hquote]
      simp

theorem outside_append_of_valued {front after v value : List Char} (hfront : ∀ c ∈ front, c ≠ '=')
    (hafter : ∀ c ∈ after, isAsciiBlank c = true) (hvalue : ReadsValue v value rest)
    (ha : a.source = front ++ '=' :: (after ++ value)) :
    Place.loose.outside (a.source ++ rest) = a.unquoted ++ Place.loose.outside rest ∧
      ((Place.loose.after (a.source ++ rest)).quote? = none ↔
        isUnclosed a.valueText = false ∧ (Place.loose.after rest).quote? = none) := by
  have hhead : value.head?.all (!isAsciiBlank ·) = true := by
    have hall := hvalue.head?
    cases value with
    | nil => rfl
    | cons c value => exact hall
  have htext : a.valueText = value := by
    rw [valueText, ha, List.dropWhile_append_of_pos fun c hc => bne_iff_ne.2 (hfront c hc),
      List.dropWhile_cons_of_neg (by decide), List.drop_one, List.tail_cons,
      dropWhile_append_of_head? hafter hhead]
  obtain ⟨hout, hplace⟩ := hvalue.outside_append
  obtain ⟨hfrontOut, hfrontAfter⟩ := Place.loose_of_name hfront
  obtain ⟨hafterOut, hafterAfter⟩ := Place.assigned_of_blanks hafter
  have hassigned : Place.loose.next '=' = .assigned := rfl
  rw [unquoted, htext, ha, List.append_assoc, List.cons_append, List.append_assoc,
    Place.outside_append, Place.after_append, hfrontOut, hfrontAfter,
    Place.outside_cons_of_none rfl rfl, Place.after_cons, hassigned, Place.outside_append,
    Place.after_append, hafterOut, hafterAfter, hout]
  refine ⟨?_, hplace⟩
  split
  · have hsplit : front ++ '=' :: (after ++ value) = (front ++ '=' :: after) ++ value := by simp
    rw [hsplit, List.length_append, Nat.add_sub_cancel, List.take_left]
    simp
  · simp

/-- What the reader finds of an attribute outside of quotations is what the parser finds there, and
the attribute leaves the reader in a quotation only if it leaves one open. -/
theorem Reads.outside_append (h : a.Reads rest) :
    Place.loose.outside (a.source ++ rest) = a.unquoted ++ Place.loose.outside rest ∧
      ((Place.loose.after (a.source ++ rest)).quote? = none ↔
        isUnclosed a.valueText = false ∧ (Place.loose.after rest).quote? = none) := by
  cases h with
  | @bare name _ hname hrest hassign =>
    have hchars := fun c hc => ne_assign_of_isNameChar (hname c hc)
    have hnone : name.dropWhile (· != '=') = [] :=
      List.dropWhile_eq_nil_iff.2 fun c hc => bne_iff_ne.2 (hchars c hc)
    obtain ⟨hout, hafter⟩ := Place.loose_of_name hchars
    rw [Place.outside_append, Place.after_append]
    simp only [unquoted, valueText, hnone, hout, hafter]
    simp [quoteOf?, isUnclosed]
  | @valued name before after v value _ hname hbefore hafter hvalue =>
    have hfront : ∀ c ∈ name ++ before, c ≠ '=' := by
      intro c hc
      rcases List.mem_append.1 hc with hc | hc
      · exact ne_assign_of_isNameChar (hname c hc)
      · exact ne_assign_of_isAsciiBlank (hbefore c hc)
    exact outside_append_of_valued hfront hafter hvalue (List.append_assoc ..).symm

end Read

end Attribute

section Tag

open Attribute

/-- What the parser finds outside of quotations, between the attributes apart, is what the reader finds
there. -/
theorem mem_outside_iff {c : Char} (hc : isGap c = false) (cs : List Char) :
    c ∈ Place.loose.outside cs ↔ ∃ a ∈ attributes cs, c ∈ a.unquoted := by
  induction cs using attributes.induct with
  | case1 => simp
  | case2 d cs hd ih =>
    have hne : c ≠ d := by
      rintro rfl
      exact absurd hd (by rw [hc]; decide)
    have hassign : d ≠ '=' := by
      rintro rfl
      exact absurd hd (by decide)
    have hnext : Place.loose.next d = .loose := if_neg hassign
    rw [attributes_of_gap hd, Place.outside_cons_of_none rfl (by rw [hnext]; rfl), hnext,
      List.mem_cons, ih, or_iff_right hne]
  | case3 d cs hd _ ih =>
    obtain ⟨hsplit, hreads⟩ := take_spec (d :: cs)
    have hout := hreads.outside_append.1
    rw [← hsplit] at hout
    rw [attributes_of_not_gap (Bool.eq_false_iff.2 hd), hout, List.mem_append, ih]
    simp

/-- The text behind the name of a tag leaves the reader in a quotation exactly if an attribute leaves one
open. -/
theorem quote?_after_eq_none_iff (cs : List Char) :
    (Place.loose.after cs).quote? = none ↔ ∀ a ∈ attributes cs, isUnclosed a.valueText = false := by
  induction cs using attributes.induct with
  | case1 => simp [Place.quote?]
  | case2 d cs hd ih =>
    have hassign : d ≠ '=' := by
      rintro rfl
      exact absurd hd (by decide)
    have hnext : Place.loose.next d = .loose := if_neg hassign
    rw [attributes_of_gap hd, Place.after_cons, hnext, ih]
  | case3 d cs hd _ ih =>
    obtain ⟨hsplit, hreads⟩ := take_spec (d :: cs)
    have hplace := hreads.outside_append.2
    rw [← hsplit] at hplace
    rw [attributes_of_not_gap (Bool.eq_false_iff.2 hd), hplace, ih, List.forall_mem_cons]

section Body

variable {body : List Char}

theorem loose_of_tagChars (body : List Char) : Place.loose.outside (tagChars body) = tagChars body ∧
    Place.loose.after (tagChars body) = .loose := by
  refine Place.loose_of_name fun c hc => ?_
  rintro rfl
  exact absurd (isTagChar_of_mem_tagChars hc) (by decide)

theorem mem_outside_body_iff {c : Char} (hgap : isGap c = false) (htag : isTagChar c = false) :
    c ∈ Place.loose.outside body ↔ ∃ a ∈ attributes (tagRest body), c ∈ a.unquoted := by
  obtain ⟨hname, hafter⟩ := loose_of_tagChars body
  have hnot : c ∉ tagChars body := fun hc => by
    rw [isTagChar_of_mem_tagChars hc] at htag
    cases htag
  conv_lhs => rw [← tagChars_append_tagRest body, Place.outside_append, hname, hafter]
  rw [List.mem_append, or_iff_right hnot, mem_outside_iff hgap]

theorem after_body (body : List Char) :
    Place.loose.after body = Place.loose.after (tagRest body) := by
  conv_lhs => rw [← tagChars_append_tagRest body, Place.after_append, (loose_of_tagChars body).2]

/-- Whether the quotations that the parser finds in a tag hold every bracket in it, and all of them are
closed. -/
structure IsQuoted (body : List Char) : Prop where
  brackets : ∀ a ∈ attributes (tagRest body), '>' ∉ a.unquoted
  closed : ∀ a ∈ attributes (tagRest body), isUnclosed a.valueText = false

theorem isQuoted_iff_outside : IsQuoted body ↔
    '>' ∉ Place.loose.outside body ∧ (Place.loose.after body).quote? = none := by
  rw [mem_outside_body_iff rfl rfl, after_body, quote?_after_eq_none_iff]
  constructor
  · rintro ⟨hbrackets, hclosed⟩
    exact ⟨fun ⟨a, ha, hmem⟩ => hbrackets a ha hmem, hclosed⟩
  · rintro ⟨hbrackets, hclosed⟩
    exact ⟨fun a ha hmem => hbrackets ⟨a, ha, hmem⟩, hclosed⟩

/-- The reader ends a tag where the scanner ends it exactly if the quotations in it hold every bracket
and are closed. -/
theorem splitTag_eq_self_iff (rest : List Char) :
    Place.loose.splitTag (body ++ '>' :: rest) = some (body, rest) ↔ IsQuoted body := by
  rw [Place.splitTag_eq_some_iff, isQuoted_iff_outside, and_iff_right rfl]

/-- Quotes that open no value and close none are what the scanner and the parser disagree on. -/
theorem isQuoted_of_unquoted (h : Token.IsBalanced body)
    (hloose : ∀ a ∈ attributes (tagRest body), '"' ∉ a.unquoted ∧ '\'' ∉ a.unquoted) :
    IsQuoted body := by
  have hnone {c : Char} (hc : c = '"' ∨ c = '\'') : c ∉ Place.loose.outside body := by
    have hgap : isGap c = false ∧ isTagChar c = false := by
      rcases hc with rfl | rfl <;> decide
    rw [mem_outside_body_iff hgap.1 hgap.2]
    rintro ⟨a, ha, hmem⟩
    rcases hc with rfl | rfl
    · exact (hloose a ha).1 hmem
    · exact (hloose a ha).2 hmem
  rw [isQuoted_iff_outside]
  refine (Place.quoteAfter_eq_some_iff fun c hc => ⟨?_, ?_⟩).1 h
  · rintro rfl
    exact hnone (.inl rfl) hc
  · rintro rfl
    exact hnone (.inr rfl) hc

end Body

end Tag

end MeetingLedger.Markup
