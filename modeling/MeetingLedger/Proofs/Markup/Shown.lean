import MeetingLedger.Proofs.Markup.Acceptance
import MeetingLedger.Proofs.Markup.Quotations

/-!
# What a reader shows of an accepted text

The reader takes a quote for the start of a quotation only where a value starts. Of an accepted text it
shows the tokens that were accepted, as long as every tag ends where the quotations in it say. Otherwise
a tag may hide markup that no one has looked at.
-/

namespace MeetingLedger.Markup

open Attribute

namespace Token

/-- The token that the reader shows at the front of a text, with the rest of the text. Apart from
opening tags the reader shows what the scanner reads. -/
def shown? (c : Char) (cs : List Char) : Option (Token × List Char) :=
  if c ≠ '<' then some (plain c, cs)
  else if cs.head?.any isAsciiLetter then
    (Place.loose.splitTag cs).map fun (body, rest) =>
      if scriptTags.contains (tagName body) then
        (dropped, afterElement (tagName body).toList rest)
      else (opening body, rest)
  else (afterBracket 0 cs).toOption

theorem length_shown?_le {c : Char} {cs rest : List Char} {t : Token}
    (h : shown? c cs = some (t, rest)) : rest.length ≤ cs.length := by
  rw [shown?] at h
  split at h
  · cases h
    exact Nat.le_refl _
  · split at h
    · obtain ⟨⟨body, rest'⟩, hsplit, heq⟩ := Option.map_eq_some_iff.1 h
      have hcs := congrArg List.length (Place.splitTag_eq_some_iff.1 hsplit).1
      have helement := length_afterElement_le (tagName body).toList rest'
      rw [List.length_append, List.length_cons] at hcs
      dsimp only at heq
      split at heq <;> cases heq <;> omega
    · cases hread : afterBracket 0 cs with
      | error e =>
        rw [hread] at h
        cases h
      | ok e =>
        rw [hread] at h
        cases h
        exact length_afterBracket hread

end Token

/-- The tokens that the reader shows of a text; nothing if a tag or a comment has no end. -/
def shownTokens : List Char → Option (List Token)
  | [] => some []
  | c :: cs =>
    match h : Token.shown? c cs with
    | none => none
    | some (t, rest) =>
      have := Token.length_shown?_le h
      (shownTokens rest).map (t :: ·)
termination_by cs => cs.length

theorem shownTokens_cons_eq_some_iff {c : Char} {cs : List Char} {t : Token} {ts : List Token} :
    shownTokens (c :: cs) = some (t :: ts) ↔
      ∃ rest, Token.shown? c cs = some (t, rest) ∧ shownTokens rest = some ts := by
  rw [shownTokens]
  split
  · rename_i hnone
    simp [hnone]
  · rename_i t' rest hshown
    rw [Option.map_eq_some_iff, hshown]
    constructor
    · rintro ⟨ts', hrest, heq⟩
      cases heq
      exact ⟨rest, rfl, hrest⟩
    · rintro ⟨rest', heq, hrest⟩
      cases heq
      exact ⟨ts, hrest, rfl⟩

namespace Token

variable {t : Token} {c : Char} {cs rest : List Char}

/-- What is no opening tag and no script is shown as it is read. -/
theorem Reads.shown?_eq (h : t.Reads (c :: cs) rest) (hopening : ∀ body, t ≠ .opening body)
    (hdropped : t ≠ .dropped) : shown? c cs = some (t, rest) := by
  have hbracket (hhead : cs.head?.any isAsciiLetter = false) (hc : c = '<') :
      shown? c cs = some (t, rest) := by
    subst hc
    rw [shown?, if_neg (not_not.2 rfl), if_neg (by rw [hhead]; decide),
      afterBracket_eq_ok_iff.2 h]
    rfl
  cases h with
  | plain hc => exact if_pos hc
  | bracket h =>
    refine hbracket ?_ rfl
    fun_cases startsMarkup cs with
    | case1 => rfl
    | case2 => rfl
    | case3 => rfl
    | case4 d ds hbang hquestion hslash =>
      rw [startsMarkup.eq_4 _ _ hbang hquestion hslash] at h
      exact h
    | case5 => rfl
  | closing => exact hbracket rfl rfl
  | comment => exact absurd rfl hdropped
  | declaration => exact absurd rfl hdropped
  | script => exact absurd rfl hdropped
  | opening => exact absurd rfl (hopening _)

/-- A tag is shown as it is read exactly if the quotations in it hold every bracket and are closed. -/
theorem Reads.shown?_opening_iff {body : List Char} (h : (Token.opening body).Reads (c :: cs) rest)
    (rest' : List Char) :
    shown? c cs = some (Token.opening body, rest') ↔ rest' = rest ∧ IsQuoted body := by
  cases h with
  | @opening d body hd hbalanced hname =>
    have hrest {rest' : List Char} (hfound : Place.loose.splitTag (d :: (body ++ '>' :: rest)) =
        some (d :: body, rest')) : rest' = rest := by
      have hcs := (Place.splitTag_eq_some_iff.1 hfound).1
      simpa using hcs.symm
    have hquoted : Place.loose.splitTag (d :: body ++ '>' :: rest) = some (d :: body, rest) ↔ _ :=
      splitTag_eq_self_iff rest
    rw [List.cons_append] at hquoted
    rw [shown?, if_neg (not_not.2 rfl), if_pos (by exact hd), Option.map_eq_some_iff]
    constructor
    · rintro ⟨⟨body', rest''⟩, hfound, heq⟩
      dsimp only at heq
      split at heq
      · cases heq
      · cases heq
        obtain rfl := hrest hfound
        exact ⟨rfl, hquoted.1 hfound⟩
    · rintro ⟨rfl, hbody⟩
      refine ⟨_, hquoted.2 hbody, ?_⟩
      dsimp only
      rw [hname]
      rfl

end Token

/-- Of a text from which nothing is dropped the reader shows the tokens that the scanner reads exactly if
every tag among them ends where the quotations in it say. -/
theorem shownTokens_eq_some_iff {cs : List Char} {ts : List Token} (h : Tokenizes cs ts)
    (hdropped : ∀ t ∈ ts, t ≠ .dropped) :
    shownTokens cs = some ts ↔ ∀ body, .opening body ∈ ts → IsQuoted body := by
  induction h with
  | nil => simp [shownTokens]
  | @cons t cs rest ts hread _ ih =>
    obtain ⟨ht, hts⟩ := List.forall_mem_cons.1 hdropped
    cases cs with
    | nil => cases hread
    | cons c cs =>
      rw [shownTokens_cons_eq_some_iff]
      by_cases hopening : ∃ body, t = .opening body
      · obtain ⟨body, rfl⟩ := hopening
        simp only [hread.shown?_opening_iff, List.mem_cons, Token.opening.injEq]
        constructor
        · rintro ⟨_, ⟨rfl, hbody⟩, hrest⟩ body' (rfl | hmem)
          · exact hbody
          · exact (ih hts).1 hrest body' hmem
        · intro hall
          exact ⟨rest, ⟨rfl, hall body (.inl rfl)⟩, (ih hts).2 fun body' hmem => hall body' (.inr hmem)⟩
      · have hne := not_exists.1 hopening
        simp only [hread.shown?_eq hne ht, Option.some.injEq, Prod.mk.injEq, true_and,
          exists_eq_left', ih hts, List.mem_cons, Ne.symm (hne _), false_or]

/-- A tag ends for the reader where it ends for the scanner exactly if the quotations that the parser finds
in it hold every bracket and are closed. They do unless a quote stands in a name or in a value without
quotes. So of an accepted text the reader shows the tokens that were accepted, allowed tags with allowed
attributes, exactly if that holds of its tags. -/
theorem accepted_shows_accepted_iff {policy : Policy} {text : String} {ts : List Token}
    (hts : tokens text.toList = .ok ts) :
    (∀ body, .opening body ∈ ts →
      (IsQuoted body ↔
        ∀ rest, Place.loose.splitTag (body ++ '>' :: rest) = some (body, rest)) ∧
      ((∀ a ∈ attributes (tagRest body), '"' ∉ a.unquoted ∧ '\'' ∉ a.unquoted) →
        IsQuoted body)) ∧
    (isSanitized policy text = true →
      (∀ t ∈ ts, t.isAllowed policy = true) ∧
      (shownTokens text.toList = some ts ↔ ∀ body, .opening body ∈ ts → IsQuoted body)) := by
  rw [tokens_eq_ok_iff] at hts
  refine ⟨fun body hbody => ⟨?_, fun hloose => ?_⟩, fun haccepted => ?_⟩
  · simp only [splitTag_eq_self_iff, forall_const]
  · obtain ⟨cs, rest, hread⟩ := hts.reads_of_mem hbody
    exact isQuoted_of_unquoted (hread.isDelimited nofun nofun).2.1 hloose
  · rw [isSanitized_iff, sanitize_eq_self_iff_tokenizes] at haccepted
    obtain ⟨ts', hts', hallowed⟩ := haccepted
    obtain rfl : ts' = ts := by
      rw [← tokens_eq_ok_iff] at hts hts'
      exact Except.ok.inj (hts'.symm.trans hts)
    refine ⟨hallowed, shownTokens_eq_some_iff hts fun t ht => ?_⟩
    rintro rfl
    cases hallowed _ ht

/-- Whether a character stands in a name or in a value without quotes. -/
def holdsLoose (c : Char) : Token → Bool
  | .opening body => (attributes (tagRest body)).any (·.unquoted.contains c)
  | _ => false

theorem holdsLoose_opening {c : Char} {body : List Char} :
    holdsLoose c (.opening body) = true ↔ ∃ a ∈ attributes (tagRest body), c ∈ a.unquoted := by
  simp [holdsLoose]

theorem accepted_shows_accepted_of_quotedBracket :
    let text := "<a href='/b' title=\"a > b\">x</a>"
    ∃ ts, tokens text.toList = .ok ts ∧ isSanitized .strict text = true ∧
      (∀ body, .opening body ∈ ts → ∀ a ∈ attributes (tagRest body),
        '"' ∉ a.unquoted ∧ '\'' ∉ a.unquoted) ∧
      shownTokens text.toList = some ts := by
  intro text
  obtain ⟨ts, hts, hnone⟩ := exists_eq_ok_of_any (x := tokens text.toList)
    (p := fun ts => ts.all fun t => !holdsLoose '"' t && !holdsLoose '\'' t) (by decide +kernel)
  have haccepted : isSanitized .strict text = true := by decide +kernel
  have hloose : ∀ body, .opening body ∈ ts → ∀ a ∈ attributes (tagRest body),
      '"' ∉ a.unquoted ∧ '\'' ∉ a.unquoted := by
    intro body hbody a ha
    have htag := List.all_eq_true.1 hnone _ hbody
    simp only [Bool.and_eq_true, Bool.not_eq_true', ← Bool.not_eq_true, holdsLoose_opening] at htag
    exact ⟨fun hmem => htag.1 ⟨a, ha, hmem⟩, fun hmem => htag.2 ⟨a, ha, hmem⟩⟩
  obtain ⟨htags, hshown⟩ := @accepted_shows_accepted_iff .strict text ts hts
  exact ⟨ts, hts, haccepted, hloose,
    (hshown haccepted).2.2 fun body hbody => (htags body hbody).2 (hloose body hbody)⟩

/-- A tag with a script within what the scanner, but not the parser, takes for a quotation. -/
def quoteInValue : String := "<p title=a\"><script>alert(1)</script>\">"

/-- A tag that leaves a quotation open for the next one to close. -/
def openQuotation : String := "<p class=b\" title=\"a><b title=\"><script>alert(1)</script>\">"

/-- Tags that are accepted as they stand show a script to the reader. -/
theorem accepted_tag_hides_script :
    (isSanitized .strict quoteInValue = true ∧
      (∃ body, tokens quoteInValue.toList = .ok [.opening body] ∧
        ∃ a ∈ attributes (tagRest body), '>' ∈ a.unquoted) ∧
      (shownTokens quoteInValue.toList).map (·.map (Token.isAllowed .strict)) =
        some [true, false, true, true]) ∧
    isSanitized .strict openQuotation = true ∧
      (shownTokens openQuotation.toList).map (·.map (Token.isAllowed .strict)) =
        some [true, false, true, true] := by
  refine ⟨⟨by decide +kernel, ?_, by decide +kernel⟩, by decide +kernel, by decide +kernel⟩
  obtain ⟨ts, hts, htag⟩ := exists_eq_ok_of_any (x := tokens quoteInValue.toList)
    (p := fun ts => ts.length == 1 && ts.all (holdsLoose '>')) (by decide +kernel)
  rw [Bool.and_eq_true, beq_iff_eq, List.length_eq_one_iff] at htag
  obtain ⟨⟨t, rfl⟩, hloose⟩ := htag
  rw [List.all_cons, List.all_nil, Bool.and_true] at hloose
  cases t with
  | opening body => exact ⟨body, hts, holdsLoose_opening.1 hloose⟩
  | _ => cases hloose

end MeetingLedger.Markup
