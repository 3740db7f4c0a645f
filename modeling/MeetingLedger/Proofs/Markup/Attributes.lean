import MeetingLedger.Markup.Attribute
import MeetingLedger.Proofs.Text.Character

/-!
# The attributes of a tag

The attribute parser as a relation between the text of an attribute and the text behind it. What
the text behind it has to look like depends on how the value is written: behind a quoted value
anything may stand, behind an empty value without quotes nothing.
-/

namespace MeetingLedger.Markup.Attribute

/-- A value and the text from which it is read, where some rest of the text follows. -/
inductive ReadsValue : List Char → List Char → List Char → Prop
  | quoted {quote : Char} {v : List Char} (hquote : quote = '"' ∨ quote = '\'') (hv : quote ∉ v)
      (rest : List Char) : ReadsValue v (quote :: (v ++ [quote])) rest
  | unclosed {quote : Char} {v : List Char} (hquote : quote = '"' ∨ quote = '\'')
      (hv : quote ∉ v) : ReadsValue v (quote :: v) []
  | unquoted {v rest : List Char} (hhead : v.head? ≠ some '"' ∧ v.head? ≠ some '\'')
      (hv : ∀ c ∈ v, isAsciiBlank c = false) (hnone : v = [] → rest = [])
      (hrest : rest.head?.all isAsciiBlank = true) : ReadsValue v v rest

/-- An attribute that is read from its text, where some rest of the text follows. -/
inductive Reads : Attribute → List Char → Prop
  | bare {name rest : List Char} (hname : ∀ c ∈ name, isNameChar c = true)
      (hrest : rest.head?.all (!isNameChar ·) = true)
      (hassign : (rest.dropWhile isAsciiBlank).head? ≠ some '=') :
      Reads ⟨String.ofList (name.map Char.toLower), none, name⟩ rest
  | valued {name before after v value rest : List Char} (hname : ∀ c ∈ name, isNameChar c = true)
      (hbefore : ∀ c ∈ before, isAsciiBlank c = true)
      (hafter : ∀ c ∈ after, isAsciiBlank c = true) (hvalue : ReadsValue v value rest) :
      Reads ⟨String.ofList (name.map Char.toLower), some v,
        name ++ (before ++ '=' :: (after ++ value))⟩ rest

section Read

theorem quotedValue_spec (quote : Char) (hquote : quote = '"' ∨ quote = '\'') (cs : List Char) :
    ∃ value, quote :: cs = value ++ (quotedValue quote cs).2 ∧
      ReadsValue (quotedValue quote cs).1 value (quotedValue quote cs).2 := by
  have hv : quote ∉ cs.takeWhile (· != quote) := fun hmem => by
    simpa using List.mem_takeWhile_imp hmem
  have hsplit := List.takeWhile_append_dropWhile (p := (· != quote)) (l := cs)
  rw [quotedValue]
  cases hrest : cs.dropWhile (· != quote) with
  | nil =>
    refine ⟨_, ?_, .unclosed hquote hv⟩
    rw [hrest, List.append_nil] at hsplit
    simp [hsplit]
  | cons c rest =>
    have hc : c = quote := by
      have hhead := head?_all_dropWhile (· != quote) cs
      rw [hrest] at hhead
      simpa using hhead
    refine ⟨_, ?_, .quoted hquote hv rest⟩
    rw [hrest, hc] at hsplit
    simpa using hsplit.symm

/-- The value that is taken from a text without blanks at its start. -/
theorem takeValue_spec {cs : List Char} (hcs : cs.head?.all (!isAsciiBlank ·) = true) :
    ∃ value, cs = value ++ (takeValue cs).2 ∧
      ReadsValue (takeValue cs).1 value (takeValue cs).2 := by
  fun_cases takeValue cs with
  | case1 cs => exact quotedValue_spec '"' (.inl rfl) cs
  | case2 cs => exact quotedValue_spec '\'' (.inr rfl) cs
  | case3 _ hdouble hsingle =>
    refine ⟨_, (List.takeWhile_append_dropWhile).symm, ?_⟩
    have hv := fun c hc => List.mem_takeWhile_imp (p := (!isAsciiBlank ·)) (l := cs) (x := c) hc
    cases cs with
    | nil => exact .unquoted ⟨nofun, nofun⟩ nofun (fun _ => rfl) rfl
    | cons c cs =>
      have hc : (!isAsciiBlank c) = true := hcs
      have hrest := head?_all_dropWhile (!isAsciiBlank ·) (c :: cs)
      have hcons : (c :: cs).takeWhile (!isAsciiBlank ·) = c :: cs.takeWhile (!isAsciiBlank ·) :=
        List.takeWhile_cons_of_pos hc
      rw [hcons] at hv ⊢
      refine .unquoted ⟨?_, ?_⟩ (fun c hc => by simpa using hv c hc) nofun ?_
      · rintro ⟨⟩
        exact hdouble cs rfl
      · rintro ⟨⟩
        exact hsingle cs rfl
      · simpa using hrest

theorem takeAssignment_spec (cs : List Char) :
    (takeAssignment cs = (none, cs) ∧ (cs.dropWhile isAsciiBlank).head? ≠ some '=') ∨
      ∃ before after v value rest, takeAssignment cs = (some v, rest) ∧
        cs = before ++ '=' :: (after ++ value) ++ rest ∧ (∀ c ∈ before, isAsciiBlank c = true) ∧
        (∀ c ∈ after, isAsciiBlank c = true) ∧ ReadsValue v value rest := by
  have hsplit := List.takeWhile_append_dropWhile (p := isAsciiBlank) (l := cs)
  rw [takeAssignment]
  split
  · rename_i rest hassign
    right
    obtain ⟨value, hvalue, hreads⟩ := takeValue_spec (head?_all_dropWhile isAsciiBlank rest)
    refine ⟨cs.takeWhile isAsciiBlank, rest.takeWhile isAsciiBlank, _, value, _, rfl, ?_,
      fun c hc => List.mem_takeWhile_imp hc, fun c hc => List.mem_takeWhile_imp hc, hreads⟩
    have hrest := List.takeWhile_append_dropWhile (p := isAsciiBlank) (l := rest)
    rw [hvalue] at hrest
    rw [hassign, ← hrest] at hsplit
    simp only [List.append_assoc, List.cons_append]
    exact hsplit.symm
  · rename_i hassign
    refine .inl ⟨rfl, fun hhead => ?_⟩
    obtain ⟨rest, hrest⟩ := List.head?_eq_some_iff.1 hhead
    exact hassign rest hrest

/-- What the parser takes from the front of a text is read there. -/
theorem take_spec (cs : List Char) :
    cs = (take cs).1.source ++ (take cs).2 ∧ (take cs).1.Reads (take cs).2 := by
  have hsplit := List.takeWhile_append_dropWhile (p := isNameChar) (l := cs)
  have hname := fun c hc => List.mem_takeWhile_imp (p := isNameChar) (l := cs) (x := c) hc
  have hfront {front rest : List Char} (h : cs = front ++ rest) :
      cs.take (cs.length - rest.length) = front := by
    simp [h]
  rcases takeAssignment_spec (cs.dropWhile isNameChar) with
    ⟨heq, hassign⟩ | ⟨before, after, v, value, rest, heq, hcs, hbefore, hafter, hvalue⟩
  · simp only [take, heq, hfront hsplit.symm]
    exact ⟨hsplit.symm, .bare hname (head?_all_dropWhile isNameChar cs) hassign⟩
  · rw [hcs, ← List.append_assoc] at hsplit
    simp only [take, heq, hfront hsplit.symm]
    exact ⟨hsplit.symm, .valued hname hbefore hafter hvalue⟩

/-- A quoted value ends at the first quote of its kind, whatever follows. -/
theorem quotedValue_append {quote : Char} {v : List Char} (hv : quote ∉ v) (rest : List Char) :
    quotedValue quote (v ++ quote :: rest) = (v, rest) := by
  have hstop : (quote :: rest).head?.all (!· != quote) = true := by simp
  rw [quotedValue, takeWhile_append_of_head? (bne_of_not_mem hv) hstop,
    dropWhile_append_of_head? (bne_of_not_mem hv) hstop]
  rfl

theorem quotedValue_of_not_mem {quote : Char} {v : List Char} (hv : quote ∉ v) :
    quotedValue quote v = (v, []) := by
  rw [quotedValue, List.takeWhile_eq_self_iff.2 (bne_of_not_mem hv),
    List.dropWhile_eq_nil_iff.2 (bne_of_not_mem hv)]
  rfl

namespace ReadsValue

variable {v value rest : List Char}

theorem takeValue_eq (h : ReadsValue v value rest) : takeValue (value ++ rest) = (v, rest) := by
  cases h with
  | quoted hquote hv rest =>
    rcases hquote with rfl | rfl
    · simpa [takeValue] using quotedValue_append hv rest
    · simpa [takeValue] using quotedValue_append hv rest
  | unclosed hquote hv =>
    rcases hquote with rfl | rfl
    · simpa [takeValue] using quotedValue_of_not_mem hv
    · simpa [takeValue] using quotedValue_of_not_mem hv
  | unquoted hhead hv hnone hrest =>
    have hall : ∀ c ∈ v, (!isAsciiBlank c) = true := fun c hc => by simp [hv c hc]
    have hstop : rest.head?.all (!!isAsciiBlank ·) = true := by simpa using hrest
    have hquote (quote : Char) (hhead : v.head? ≠ some quote) (cs : List Char)
        (heq : v ++ rest = quote :: cs) : False := by
      cases v with
      | nil =>
        rw [hnone rfl] at heq
        cases heq
      | cons c v =>
        obtain ⟨rfl, -⟩ := List.cons.inj heq
        exact hhead rfl
    rw [takeValue.eq_3, takeWhile_append_of_head? hall hstop, dropWhile_append_of_head? hall hstop]
    · exact fun cs => hquote '"' hhead.1 cs
    · exact fun cs => hquote '\'' hhead.2 cs

theorem head? (h : ReadsValue v value rest) :
    (value ++ rest).head?.all (!isAsciiBlank ·) = true := by
  cases h with
  | quoted hquote => rcases hquote with rfl | rfl <;> rfl
  | unclosed hquote => rcases hquote with rfl | rfl <;> rfl
  | unquoted hhead hv hnone hrest =>
    cases v with
    | nil =>
      rw [hnone rfl]
      rfl
    | cons c v => simp [hv c List.mem_cons_self]

end ReadsValue

theorem takeAssignment_of_none {cs : List Char}
    (h : (cs.dropWhile isAsciiBlank).head? ≠ some '=') : takeAssignment cs = (none, cs) := by
  rw [takeAssignment]
  split
  · rename_i heq
    rw [heq] at h
    exact absurd rfl h
  · rfl

theorem takeAssignment_of_value {before after v value rest : List Char}
    (hbefore : ∀ c ∈ before, isAsciiBlank c = true) (hafter : ∀ c ∈ after, isAsciiBlank c = true)
    (hvalue : ReadsValue v value rest) :
    takeAssignment (before ++ '=' :: (after ++ (value ++ rest))) = (some v, rest) := by
  have hassign : (before ++ '=' :: (after ++ (value ++ rest))).dropWhile isAsciiBlank =
      '=' :: (after ++ (value ++ rest)) := dropWhile_append_of_head? hbefore rfl
  have hstart : (after ++ (value ++ rest)).dropWhile isAsciiBlank = value ++ rest :=
    dropWhile_append_of_head? hafter hvalue.head?
  simp only [takeAssignment, hassign, hstart, hvalue.takeValue_eq]

theorem head?_before_value {before : List Char} (hbefore : ∀ c ∈ before, isAsciiBlank c = true)
    (cs : List Char) : (before ++ '=' :: cs).head?.all (!isNameChar ·) = true := by
  cases before with
  | nil => rfl
  | cons c before => simp [isNameChar, isGap, hbefore c List.mem_cons_self]

/-- An attribute is taken from every text in front of which it is read. -/
theorem Reads.take_eq {a : Attribute} {rest : List Char} (h : a.Reads rest) :
    take (a.source ++ rest) = (a, rest) := by
  have hfront : (a.source ++ rest).take ((a.source ++ rest).length - rest.length) = a.source := by
    simp
  cases h with
  | bare hname hrest hassign =>
    dsimp only at hfront ⊢
    simp only [take, takeWhile_append_of_head? hname hrest, dropWhile_append_of_head? hname hrest,
      takeAssignment_of_none hassign, hfront]
  | @valued name before after v value _ hname hbefore hafter hvalue =>
    have hstop := head?_before_value hbefore (after ++ (value ++ rest))
    dsimp only at hfront ⊢
    have hsource : name ++ (before ++ '=' :: (after ++ value)) ++ rest =
        name ++ (before ++ '=' :: (after ++ (value ++ rest))) := by simp
    rw [hsource] at hfront ⊢
    simp only [take, takeWhile_append_of_head? hname hstop, dropWhile_append_of_head? hname hstop,
      takeAssignment_of_value hbefore hafter hvalue, hfront]

end Read

theorem Reads.source_head {a : Attribute} {rest : List Char} (h : a.Reads rest)
    (hname : a.name ≠ "") : ∃ c cs, a.source = c :: cs ∧ isNameChar c = true := by
  have hcons {name : List Char} (hname : String.ofList (name.map Char.toLower) ≠ "")
      (hchars : ∀ c ∈ name, isNameChar c = true) (ds : List Char) :
      ∃ c cs, name ++ ds = c :: cs ∧ isNameChar c = true := by
    cases name with
    | nil => exact absurd rfl hname
    | cons c name => exact ⟨c, name ++ ds, rfl, hchars c List.mem_cons_self⟩
  cases h with
  | bare hchars => simpa using hcons hname hchars []
  | valued hchars => exact hcons hname hchars _

end MeetingLedger.Markup.Attribute

namespace MeetingLedger.Markup

open Attribute

@[simp] theorem attributes_nil : attributes [] = [] := by
  rw [attributes]

@[simp] theorem attributes_of_gap {c : Char} (hc : isGap c = true) (cs : List Char) :
    attributes (c :: cs) = attributes cs := by
  rw [attributes, dif_pos hc]

theorem attributes_of_not_gap {c : Char} (hc : isGap c = false) (cs : List Char) :
    attributes (c :: cs) = (take (c :: cs)).1 :: attributes (take (c :: cs)).2 := by
  rw [attributes, dif_neg (by rw [hc]; decide)]

/-- An attribute with a name is the first one of every text in front of which it is read. -/
theorem attributes_of_reads {a : Attribute} {rest : List Char} (h : a.Reads rest)
    (hname : a.name ≠ "") : attributes (a.source ++ rest) = a :: attributes rest := by
  obtain ⟨c, cs, hsource, hc⟩ := h.source_head hname
  have htake := h.take_eq
  rw [hsource, List.cons_append] at htake ⊢
  have hgap : isGap c = false := by
    rw [isNameChar, Bool.and_eq_true, Bool.not_eq_true'] at hc
    exact hc.1
  rw [attributes_of_not_gap hgap, htake]

theorem reads_of_mem_attributes {cs : List Char} {a : Attribute} (ha : a ∈ attributes cs) :
    ∃ rest, a.Reads rest := by
  fun_induction attributes cs with
  | case1 => cases ha
  | case2 c cs hc ih => exact ih ha
  | case3 c cs hc _ ih =>
    rcases List.mem_cons.1 ha with rfl | ha
    · exact ⟨_, (take_spec (c :: cs)).2⟩
    · exact ih ha

end MeetingLedger.Markup
