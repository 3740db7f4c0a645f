import MeetingLedger.Proofs.Markup.Attributes
import MeetingLedger.Proofs.Markup.Tokens

/-!
# Rebuilt tags

A tag that is rebuilt holds the texts of some attributes of another one. It is read back as it was
written if the scanner that looks for the end of a tag and the parser of attributes agree on what is
quoted in these texts: the one takes every quote for the start of a quotation, the other only a quote
at the start of a value.
-/

namespace MeetingLedger

section Trim

theorem isBlank_of_isAsciiBlank {c : Char} (h : isAsciiBlank c = true) : isBlank c = true := by
  simp only [isAsciiBlank, Bool.or_eq_true, beq_iff_eq] at h
  rcases h with (((rfl | rfl) | rfl) | rfl) | rfl <;> rfl

theorem trimEnd_of_getLast? {cs : List Char} {c : Char} (h : cs.getLast? = some c)
    (hc : isBlank c = false) : trimEnd cs = cs := by
  obtain ⟨ds, rfl⟩ := List.getLast?_eq_some_iff.1 h
  simp [trimEnd, List.dropWhile_cons_of_neg, hc]

theorem trimEnd_append_of_blank {bs : List Char} (h : ∀ c ∈ bs, isBlank c = true)
    (cs : List Char) : trimEnd (cs ++ bs) = trimEnd cs := by
  rw [trimEnd, trimEnd, List.reverse_append, List.dropWhile_append_of_pos]
  intro c hc
  exact h c (List.mem_reverse.1 hc)

theorem trimEnd_append {ds : List Char} (h : ds.any (!isBlank ·) = true) (cs : List Char) :
    trimEnd (cs ++ ds) = cs ++ trimEnd ds := by
  have hsome : ¬ (ds.reverse.dropWhile isBlank).isEmpty = true := by
    rw [List.isEmpty_iff, List.dropWhile_eq_nil_iff]
    obtain ⟨c, hc, hblank⟩ := List.any_eq_true.1 h
    intro hall
    rw [hall c (List.mem_reverse.2 hc)] at hblank
    cases hblank
  rw [trimEnd, trimEnd, List.reverse_append, List.dropWhile_append, if_neg hsome,
    List.reverse_append, List.reverse_reverse]

theorem exists_trimEnd_append (cs : List Char) :
    ∃ bs, cs = trimEnd cs ++ bs ∧ ∀ c ∈ bs, isBlank c = true := by
  refine ⟨(cs.reverse.takeWhile isBlank).reverse, ?_, ?_⟩
  · rw [trimEnd, ← List.reverse_append, List.takeWhile_append_dropWhile, List.reverse_reverse]
  · intro c hc
    exact List.mem_takeWhile_imp (List.mem_reverse.1 hc)

theorem getLast?_trimEnd_append {ds : List Char} {c : Char}
    (h : (trimEnd ds).getLast? = some c) (cs : List Char) :
    (trimEnd (cs ++ ds)).getLast? = some c := by
  rw [trimEnd, List.getLast?_reverse] at h ⊢
  obtain ⟨rest, hrest⟩ := List.head?_eq_some_iff.1 h
  rw [List.reverse_append, List.dropWhile_append, hrest]
  rfl

end Trim

namespace Markup

section Names

/-- Names of attributes that may be kept are made up of letters and hyphens. -/
def IsPlainName (name : String) : Prop :=
  name ≠ "" ∧ name.toList.all (fun c => isAsciiLower c || c == '-') = true

instance : DecidablePred IsPlainName := fun _ => inferInstanceAs (Decidable (_ ∧ _))

theorem isPlainName_of_accepts {policy : Policy} {tag : String} {a : Attribute}
    (h : policy.accepts tag a = true) : IsPlainName a.name := by
  have hglobal : ∀ name ∈ globalAttributes, IsPlainName name := by decide
  have hformatting : ∀ name ∈ formattingAttributes tag, IsPlainName name := by
    unfold formattingAttributes
    split <;> decide
  have hmedia : ∀ name ∈ mediaAttributes tag, IsPlainName name := by
    unfold mediaAttributes
    split <;> decide
  rw [Policy.accepts, Policy.allowsAttribute] at h
  simp only [Bool.and_eq_true, Bool.or_eq_true, List.contains_iff_mem] at h
  obtain ⟨(hname | hname) | ⟨-, hname⟩, -⟩ := h
  · exact hglobal _ hname
  · exact hformatting _ hname
  · exact hmedia _ hname

theorem isBalanced_name {name : List Char}
    (h : IsPlainName (String.ofList (name.map Char.toLower))) : Token.IsBalanced name := by
  refine Token.isBalanced_of_forall (p := fun c => isAsciiLower c.toLower || c.toLower == '-')
    (by decide) fun c hc => ?_
  exact List.all_eq_true.1 h.2 c.toLower (by simpa using ⟨c, hc, rfl⟩)

theorem isBalanced_blanks {cs : List Char} (h : ∀ c ∈ cs, isAsciiBlank c = true) :
    Token.IsBalanced cs :=
  Token.isBalanced_of_forall (by decide) h

end Names

namespace Attribute

/-- An attribute whose text can stand in another tag: it leaves no quotation open and has no bracket
outside of quotes, and its value is not cut off whole with the blanks at its end. -/
structure IsTidy (a : Attribute) : Prop where
  balanced : Token.IsBalanced a.raw
  uncut : a.raw = a.source ∨ a.value.any (fun v => v.isEmpty || v.any (!isBlank ·)) = true

/-- The text behind an attribute in a rebuilt tag: nothing, or a blank and no equals sign. -/
structure IsSeparated (rest : List Char) : Prop where
  blank : rest.head?.all isAsciiBlank = true
  assigns : (rest.dropWhile isAsciiBlank).head? ≠ some '='

theorem isSeparated_nil : IsSeparated [] := ⟨rfl, by decide⟩

theorem raw_of_getLast? {a : Attribute} {quote : Char} (hquote : quote = '"' ∨ quote = '\'')
    (h : a.source.getLast? = some quote) : a.raw = a.source := by
  apply trimEnd_of_getLast? h
  rcases hquote with rfl | rfl <;> rfl

theorem assignment_append (name before after value : List Char) :
    name ++ (before ++ '=' :: (after ++ value)) = (name ++ (before ++ '=' :: after)) ++ value := by
  simp

theorem trimEnd_assignment {after : List Char} (h : ∀ c ∈ after, isAsciiBlank c = true)
    (name before : List Char) :
    trimEnd (name ++ (before ++ '=' :: (after ++ []))) = name ++ (before ++ '=' :: ([] ++ [])) := by
  have hsplit : name ++ (before ++ '=' :: (after ++ [])) =
      (name ++ (before ++ '=' :: ([] ++ []))) ++ after := by
    simp
  rw [hsplit, trimEnd_append_of_blank fun c hc => isBlank_of_isAsciiBlank (h c hc),
    trimEnd_of_getLast? (c := '=') (by simp) rfl]

theorem Reads.getLast?_raw {a : Attribute} {rest : List Char} (h : a.Reads rest)
    (hempty : a.value = some []) : ∃ c, a.raw.getLast? = some c ∧ c ≠ '/' := by
  have hquoted {quote : Char} (hquote : quote = '"' ∨ quote = '\'')
      (hlast : a.source.getLast? = some quote) : ∃ c, a.raw.getLast? = some c ∧ c ≠ '/' := by
    refine ⟨quote, by rw [raw_of_getLast? hquote hlast, hlast], ?_⟩
    rcases hquote with rfl | rfl <;> decide
  cases h with
  | bare => cases hempty
  | valued hname hbefore hafter hvalue =>
    cases hempty
    cases hvalue with
    | quoted hquote hv => exact hquoted hquote (by simp [List.getLast?_cons])
    | unclosed hquote hv => exact hquoted hquote (by simp [List.getLast?_cons])
    | unquoted =>
      rw [raw, trimEnd_assignment hafter]
      exact ⟨'=', by simp, by decide⟩

/-- An attribute and what is read of its own text. -/
structure IsAgain (a b : Attribute) : Prop where
  name_eq : b.name = a.name
  source_eq : b.source = a.raw
  isSafe : a.isSafe = true → b.isSafe = true

theorem IsAgain.accepts {policy : Policy} {tag : String} {a b : Attribute} (h : a.IsAgain b)
    (ha : policy.accepts tag a = true) : policy.accepts tag b = true := by
  rw [Policy.accepts, Bool.and_eq_true] at ha ⊢
  rw [h.name_eq]
  exact ⟨ha.1, h.isSafe ha.2⟩

theorem exists_trimEnd_cons {c : Char} {cs : List Char} (h : (c :: cs).any (!isBlank ·) = true) :
    ∃ ds bs, trimEnd (c :: cs) = c :: ds ∧ cs = ds ++ bs := by
  obtain ⟨bs, hsplit, hbs⟩ := exists_trimEnd_append (c :: cs)
  cases htrim : trimEnd (c :: cs) with
  | nil =>
    rw [htrim, List.nil_append] at hsplit
    obtain ⟨d, hd, hblank⟩ := List.any_eq_true.1 h
    rw [hbs d (hsplit ▸ hd)] at hblank
    cases hblank
  | cons d ds =>
    rw [htrim] at hsplit
    obtain ⟨rfl, hcs⟩ := List.cons.inj hsplit
    exact ⟨ds, bs, rfl, hcs⟩

/-- A script that a value would run without the blanks at its end is run by the value as it is. -/
theorem isSafe_trimEnd {name : String} {v source : List Char}
    (h : isSafe ⟨name, some v, source⟩ = true) (source' : List Char) :
    isSafe ⟨name, some (trimEnd v), source'⟩ = true := by
  obtain ⟨bs, hsplit, -⟩ := exists_trimEnd_append v
  have hstart : trimStart (trimEnd v) <+: trimStart v := by
    nth_rewrite 2 [hsplit]
    rw [trimStart, trimStart, List.dropWhile_append]
    split
    · rename_i hnone
      rw [List.isEmpty_iff.1 hnone]
      exact List.nil_prefix
    · exact List.prefix_append _ _
  have hscript {scheme : List Char}
      (hscheme : scheme.isPrefixOf ((trimStart v).map Char.toLower) = false) :
      scheme.isPrefixOf ((trimStart (trimEnd v)).map Char.toLower) = false := by
    rw [Bool.eq_false_iff, ne_eq, List.isPrefixOf_iff_prefix] at hscheme ⊢
    exact fun hruns => hscheme (hruns.trans (hstart.map Char.toLower))
  rw [isSafe] at h ⊢
  split
  · rename_i hname
    rw [if_pos hname] at h
    simp only [Bool.not_eq_true', Bool.or_eq_false_iff] at h ⊢
    exact ⟨hscript h.1, hscript h.2⟩
  · rfl

/-- A value without quotes is read again without the blanks at its end. -/
theorem readsValue_trimEnd {v rest : List Char} (hv : v.any (!isBlank ·) = true)
    (hhead : v.head? ≠ some '"' ∧ v.head? ≠ some '\'') (hblank : ∀ c ∈ v, isAsciiBlank c = false)
    (hrest : rest.head?.all isAsciiBlank = true) :
    ReadsValue (trimEnd v) (trimEnd v) rest := by
  cases v with
  | nil => cases hv
  | cons c cs =>
    obtain ⟨ds, bs, htrim, rfl⟩ := exists_trimEnd_cons hv
    rw [htrim]
    refine .unquoted hhead (fun d hd => hblank d ?_) (by simp) hrest
    rw [← List.cons_append]
    exact List.mem_append_left bs hd

/-- A quotation that is not closed stays open without the blanks at its end. -/
theorem not_isBalanced_of_unclosed {front v : List Char} {quote : Char}
    (hquote : quote = '"' ∨ quote = '\'') (hfront : Token.IsBalanced front) (hv : quote ∉ v) :
    ¬ Token.IsBalanced (trimEnd (front ++ quote :: v)) := by
  have hsome : (quote :: v).any (!isBlank ·) = true := by
    rcases hquote with rfl | rfl <;> rfl
  obtain ⟨ds, bs, htrim, rfl⟩ := exists_trimEnd_cons hsome
  have hopen : Token.quoteAfter none (quote :: ds) = some (some quote) := by
    rw [← Token.quoteAfter_of_not_mem fun hmem => hv (List.mem_append_left bs hmem)]
    rcases hquote with rfl | rfl <;> rfl
  rw [trimEnd_append hsome, htrim, Token.IsBalanced, Token.quoteAfter_append, hfront,
    Option.bind_some, hopen]
  rintro ⟨⟩

/-- A tidy attribute is read again from its text in a rebuilt tag. -/
theorem Reads.again {a : Attribute} {rest : List Char} (h : a.Reads rest)
    (hname : IsPlainName a.name) (htidy : a.IsTidy) {rest' : List Char}
    (hrest : IsSeparated rest') (hlast : a.value = some [] → rest = [] → rest' = []) :
    ∃ b, a.IsAgain b ∧ b.Reads rest' := by
  have huncut := htidy.uncut
  cases h with
  | bare hchars =>
    have hstop : rest'.head?.all (!isNameChar ·) = true := by
      cases rest' with
      | nil => rfl
      | cons c rest' =>
        have hc : isAsciiBlank c = true := hrest.blank
        simp [isNameChar, isGap, hc]
    refine ⟨_, ?_, .bare hchars hstop hrest.assigns⟩
    exact ⟨rfl, (huncut.resolve_right (by simp)).symm, id⟩
  | @valued name before after v value _ hchars hbefore hafter hvalue =>
    cases hvalue with
    | quoted hquote hv =>
      refine ⟨_, ?_, .valued hchars hbefore hafter (.quoted hquote hv rest')⟩
      exact ⟨rfl, (raw_of_getLast? hquote (by simp [List.getLast?_cons])).symm, id⟩
    | @unclosed quote _ hquote hv =>
      refine absurd htidy.balanced ?_
      rw [raw, assignment_append]
      refine not_isBalanced_of_unclosed hquote ?_ hv
      refine (isBalanced_name hname).append ((isBalanced_blanks hbefore).append ?_)
      exact (show Token.IsBalanced ['='] from rfl).append (isBalanced_blanks hafter)
    | unquoted hhead hv hnone hstop =>
      by_cases hempty : v = []
      · subst hempty
        obtain rfl := hlast rfl (hnone rfl)
        have hnothing : ∀ c ∈ ([] : List Char), isAsciiBlank c = true := by simp
        refine ⟨_, ?_, .valued hchars hbefore hnothing
          (.unquoted hhead hv (fun _ => rfl) rfl)⟩
        exact ⟨rfl, (trimEnd_assignment hafter name before).symm, id⟩
      · rcases huncut with huncut | hcut
        · refine ⟨_, ?_, .valued hchars hbefore hafter
            (.unquoted hhead hv (fun h => absurd h hempty) hrest.blank)⟩
          exact ⟨rfl, huncut.symm, id⟩
        · have hsome : v.any (!isBlank ·) = true := by simpa [hempty] using hcut
          refine ⟨_, ?_, .valued hchars hbefore hafter
            (readsValue_trimEnd hsome hhead hv hrest.blank)⟩
          refine ⟨rfl, ?_, fun h => isSafe_trimEnd h _⟩
          rw [raw, assignment_append name before after v, trimEnd_append hsome]
          exact assignment_append name before after (trimEnd v)

end Attribute

section Rebuilt

open Attribute

variable {policy : Policy} {tag : String}

def keptAttributes (policy : Policy) (tag : String) (cs : List Char) : List Attribute :=
  (attributes cs).filter (policy.accepts tag)

theorem keptAttributes_nil : keptAttributes policy tag [] = [] := by
  rw [keptAttributes, attributes_nil, List.filter_nil]

theorem keptAttributes_of_gap {c : Char} (hc : isGap c = true) (cs : List Char) :
    keptAttributes policy tag (c :: cs) = keptAttributes policy tag cs := by
  rw [keptAttributes, attributes_of_gap hc, ← keptAttributes]

theorem keptAttributes_of_not_gap {c : Char} (hc : isGap c = false) (cs : List Char) :
    keptAttributes policy tag (c :: cs) =
      if policy.accepts tag (take (c :: cs)).1 then
        (take (c :: cs)).1 :: keptAttributes policy tag (take (c :: cs)).2
      else keptAttributes policy tag (take (c :: cs)).2 := by
  rw [keptAttributes, attributes_of_not_gap hc, List.filter_cons]
  rfl

def joinAttributes (as : List Attribute) : List Char := as.flatMap fun a => ' ' :: a.raw

theorem joinAttributes_cons (a : Attribute) (as : List Attribute) :
    joinAttributes (a :: as) = ' ' :: (a.raw ++ joinAttributes as) := rfl

theorem raw_head_of_mem_kept {cs : List Char} {a : Attribute}
    (ha : a ∈ keptAttributes policy tag cs) (htidy : a.IsTidy) :
    ∃ c cs, a.raw = c :: cs ∧ isNameChar c = true := by
  obtain ⟨hmem, haccepts⟩ := List.mem_filter.1 ha
  obtain ⟨rest, hread⟩ := reads_of_mem_attributes hmem
  have hname := isPlainName_of_accepts haccepts
  obtain ⟨b, hagain, hreads⟩ := hread.again hname htidy isSeparated_nil fun _ _ => rfl
  rw [← hagain.source_eq]
  exact hreads.source_head (hagain.name_eq ▸ hname.1)

theorem head?_join {slash : List Char} (hslash : slash = [] ∨ slash = [' ', '/'])
    (as : List Attribute) : (joinAttributes as ++ slash).head?.all isAsciiBlank = true := by
  cases as with
  | nil => rcases hslash with rfl | rfl <;> rfl
  | cons a as => rfl

/-- What follows an attribute in a rebuilt tag does not belong to it. -/
theorem isSeparated_join {as : List Attribute} {slash : List Char}
    (hslash : slash = [] ∨ slash = [' ', '/'])
    (has : ∀ a ∈ as, ∃ c cs, a.raw = c :: cs ∧ isNameChar c = true) :
    IsSeparated (joinAttributes as ++ slash) := by
  refine ⟨head?_join hslash as, ?_⟩
  cases as with
  | nil => rcases hslash with rfl | rfl <;> decide
  | cons a as =>
    obtain ⟨c, cs, hraw, hc⟩ := has a List.mem_cons_self
    simp only [isNameChar, isGap, Bool.and_eq_true, Bool.not_eq_true', Bool.or_eq_false_iff,
      bne_iff_ne] at hc
    rw [joinAttributes_cons, hraw, List.cons_append, List.dropWhile_cons_of_pos (by decide),
      List.cons_append, List.cons_append, List.dropWhile_cons_of_neg (by rw [hc.1.1]; decide)]
    exact fun h => hc.2 (Option.some.inj h)

theorem all_accepts_join {cs slash : List Char} (hslash : slash = [] ∨ slash = [' ', '/'])
    (hlast : slash ≠ [] → ∀ c, (trimEnd cs).getLast? = some c → c = '/')
    (htidy : ∀ a ∈ keptAttributes policy tag cs, a.IsTidy) :
    (attributes (joinAttributes (keptAttributes policy tag cs) ++ slash)).all
      (policy.accepts tag) = true := by
  induction cs using attributes.induct with
  | case1 =>
    rcases hslash with rfl | rfl
    · simp [keptAttributes_nil, joinAttributes]
    · simp [keptAttributes_nil, joinAttributes, attributes_of_gap, isGap, isAsciiBlank]
  | case2 c cs hc ih =>
    rw [keptAttributes_of_gap hc] at htidy ⊢
    exact ih (fun hs d hd => hlast hs d (getLast?_trimEnd_append hd [c])) htidy
  | case3 c cs hc _ ih =>
    obtain ⟨hsplit, hreads⟩ := take_spec (c :: cs)
    have hlast' (hs : slash ≠ []) (d : Char)
        (hd : (trimEnd (take (c :: cs)).2).getLast? = some d) : d = '/' := by
      refine hlast hs d ?_
      rw [hsplit]
      exact getLast?_trimEnd_append hd _
    rw [keptAttributes_of_not_gap (Bool.eq_false_iff.2 hc)] at htidy ⊢
    by_cases ha : policy.accepts tag (take (c :: cs)).1 = true
    · rw [if_pos ha] at htidy ⊢
      obtain ⟨hfirst, hrest⟩ := List.forall_mem_cons.1 htidy
      have hend (hempty : (take (c :: cs)).1.value = some []) (hnone : (take (c :: cs)).2 = []) :
          joinAttributes (keptAttributes policy tag (take (c :: cs)).2) ++ slash = [] := by
        rw [hnone, keptAttributes_nil]
        rcases hslash with rfl | rfl
        · rfl
        · obtain ⟨d, hd, hne⟩ := hreads.getLast?_raw hempty
          refine absurd (hlast (List.cons_ne_nil _ _) d ?_) hne
          rw [hsplit, hnone, List.append_nil]
          exact hd
      have hname := isPlainName_of_accepts ha
      obtain ⟨b, hagain, hread⟩ := hreads.again hname hfirst
        (isSeparated_join hslash fun b hb => raw_head_of_mem_kept hb (hrest b hb)) hend
      rw [joinAttributes_cons, List.cons_append, attributes_of_gap rfl, List.append_assoc,
        ← hagain.source_eq, attributes_of_reads hread (hagain.name_eq ▸ hname.1), List.all_cons,
        hagain.accepts ha, Bool.true_and]
      exact ih hlast' hrest
    · rw [if_neg ha] at htidy ⊢
      exact ih hlast' htidy

theorem isBalanced_tagChars (body : List Char) : Token.IsBalanced (tagChars body) :=
  Token.isBalanced_of_forall (by decide) fun _ hc => isTagChar_of_mem_tagChars hc

theorem isTagChar_of_isAsciiBlank {c : Char} (h : isAsciiBlank c = true) :
    isTagChar c = false := by
  simp only [isAsciiBlank, Bool.or_eq_true, beq_iff_eq] at h
  rcases h with (((rfl | rfl) | rfl) | rfl) | rfl <;> rfl

theorem tagChars_append {rest : List Char} (hrest : rest.head?.all isAsciiBlank = true)
    (body : List Char) : tagChars (tagChars body ++ rest) = tagChars body := by
  have hstop : rest.head?.all (!isTagChar ·) = true := by
    cases rest with
    | nil => rfl
    | cons c rest =>
      have hc : isAsciiBlank c = true := hrest
      simp [isTagChar_of_isAsciiBlank hc]
  rw [tagChars, List.takeWhile_append_of_pos fun c hc => isTagChar_of_mem_tagChars hc,
    takeWhile_of_head? hstop, List.append_nil]

def slashOf (body : List Char) : List Char :=
  if (trimEnd body).getLast? == some '/' then [' ', '/'] else []

theorem slashOf_cases (body : List Char) : slashOf body = [] ∨ slashOf body = [' ', '/'] := by
  rw [slashOf]
  split
  · exact .inr rfl
  · exact .inl rfl

def rebuiltBody (policy : Policy) (body : List Char) : List Char :=
  tagChars body ++
    (joinAttributes (keptAttributes policy (tagName body) (tagRest body)) ++ slashOf body)

theorem rebuilt_eq_source (policy : Policy) (body : List Char) :
    Token.rebuilt policy body = (Token.opening (rebuiltBody policy body)).source := by
  simp only [Token.rebuilt, take_length_tagName, Token.source, rebuiltBody, List.append_assoc,
    List.cons_append]
  rfl

section Body

variable {body : List Char}

theorem tagChars_rebuiltBody : tagChars (rebuiltBody policy body) = tagChars body :=
  tagChars_append (head?_join (slashOf_cases body) _) body

theorem tagName_rebuiltBody : tagName (rebuiltBody policy body) = tagName body := by
  rw [tagName_eq, tagName_eq, tagChars_rebuiltBody]

theorem tagRest_rebuiltBody : tagRest (rebuiltBody policy body) =
    joinAttributes (keptAttributes policy (tagName body) (tagRest body)) ++ slashOf body := by
  rw [tagRest, tagName_rebuiltBody, length_tagName]
  exact List.drop_left

theorem isBalanced_join {as : List Attribute} (has : ∀ a ∈ as, a.IsTidy) :
    Token.IsBalanced (joinAttributes as) := by
  induction as with
  | nil => rfl
  | cons a as ih =>
    obtain ⟨ha, has⟩ := List.forall_mem_cons.1 has
    exact (show Token.IsBalanced [' '] from rfl).append (ha.balanced.append (ih has))

/-- A rebuilt tag that keeps tidy attributes only is read back as a whole. -/
theorem isDelimited_rebuilt (h : (Token.opening body).IsDelimited)
    (htidy : ∀ a ∈ keptAttributes policy (tagName body) (tagRest body), a.IsTidy) :
    (Token.opening (rebuiltBody policy body)).IsDelimited := by
  obtain ⟨hletter, -, hscript⟩ := h
  refine ⟨?_, ?_, ?_⟩
  · cases body with
    | nil => cases hletter
    | cons c body =>
      have hc : isTagChar c = true := by
        rw [isTagChar, show isAsciiLetter c = true from hletter, Bool.true_or]
      rw [rebuiltBody, tagChars, List.takeWhile_cons_of_pos hc]
      exact hletter
  · refine (isBalanced_tagChars body).append ((isBalanced_join htidy).append ?_)
    rcases slashOf_cases body with hslash | hslash <;> rw [hslash] <;> rfl
  · rw [tagName_rebuiltBody, hscript]

/-- What is read back has allowed attributes only. -/
theorem isAllowed_rebuilt (hallowed : policy.allowsTag (tagName body) = true)
    (htidy : ∀ a ∈ keptAttributes policy (tagName body) (tagRest body), a.IsTidy) :
    (Token.opening (rebuiltBody policy body)).isAllowed policy = true := by
  have hlast (hs : slashOf body ≠ []) (c : Char)
      (hc : (trimEnd (tagRest body)).getLast? = some c) : c = '/' := by
    rw [slashOf] at hs
    split at hs
    · rename_i hslash
      have hbody := getLast?_trimEnd_append hc (tagChars body)
      rw [tagChars_append_tagRest, beq_iff_eq.1 hslash] at hbody
      exact (Option.some.inj hbody).symm
    · exact absurd rfl hs
  rw [Token.isAllowed, tagRest_rebuiltBody, tagName_rebuiltBody, hallowed, Bool.true_and]
  exact all_accepts_join (slashOf_cases body) hlast htidy

end Body

end Rebuilt

end Markup

end MeetingLedger
