import Mathlib.Data.List.Basic
import Mathlib.Data.List.TakeWhile
import MeetingLedger.Markup.Sanitize
import MeetingLedger.Proofs.Container.Except
import MeetingLedger.Proofs.Fqid

/-!
# The tokens of a formatted text

The scanner as a relation between texts and tokens, without the byte count that it keeps for its
messages. A token that is copied is found again in any text that has it in front, so a text that is
made up of allowed tokens is left alone.
-/

namespace MeetingLedger.Markup

namespace Token

/-- The quotation that is open behind a text, if there is one, given the one that is open in front
of it; nothing if a bracket ends the tag before. -/
def quoteAfter : Option Char → List Char → Option (Option Char)
  | q, [] => some q
  | some q, c :: cs => quoteAfter (if c = q then none else some q) cs
  | none, c :: cs =>
    if c = '>' then none else quoteAfter (if c = '"' || c = '\'' then some c else none) cs

/-- Whether the scanner passes over a text within a tag without an end or an open quotation. -/
def IsBalanced (cs : List Char) : Prop := quoteAfter none cs = some none

theorem quoteAfter_append (q : Option Char) (cs ds : List Char) :
    quoteAfter q (cs ++ ds) = (quoteAfter q cs).bind (quoteAfter · ds) := by
  induction cs generalizing q with
  | nil => rfl
  | cons c cs ih =>
    cases q with
    | some q => exact ih _
    | none =>
      rw [List.cons_append, quoteAfter, quoteAfter]
      split
      · rfl
      · exact ih _

theorem IsBalanced.append {cs ds : List Char} (hcs : IsBalanced cs) (hds : IsBalanced ds) :
    IsBalanced (cs ++ ds) := by
  rw [IsBalanced, quoteAfter_append, hcs]
  exact hds

theorem quoteAfter_of_not_mem {quote : Char} {cs : List Char} (h : quote ∉ cs) :
    quoteAfter (some quote) cs = some (some quote) := by
  induction cs with
  | nil => rfl
  | cons c cs ih =>
    rw [List.mem_cons, not_or] at h
    rw [quoteAfter, if_neg (Ne.symm h.1), ih h.2]

theorem isBalanced_of_forall {p : Char → Bool}
    (hp : p '"' = false ∧ p '\'' = false ∧ p '>' = false) {cs : List Char}
    (h : ∀ c ∈ cs, p c = true) : IsBalanced cs := by
  rw [IsBalanced]
  induction cs with
  | nil => rfl
  | cons c cs ih =>
    obtain ⟨hc, hcs⟩ := List.forall_mem_cons.1 h
    have hne {d : Char} (hd : p d = false) : c ≠ d := by
      rintro rfl
      cases hc.symm.trans hd
    rw [quoteAfter, if_neg (hne hp.2.2)]
    simp only [hne hp.1, hne hp.2.1, decide_false, Bool.or_self, Bool.false_eq_true, if_false]
    exact ih hcs

/-- A tag ends at the first bracket that stands outside of quotes. -/
theorem splitTag_eq_some_iff {q : Option Char} {cs a b : List Char} :
    splitTag q cs = some (a, b) ↔ cs = a ++ '>' :: b ∧ quoteAfter q a = some none := by
  induction cs generalizing q a with
  | nil => cases q <;> simp [splitTag]
  | cons c cs ih =>
    cases a with
    | nil =>
      cases q with
      | some q => simp [splitTag, quoteAfter]
      | none =>
        rw [splitTag]
        split
        · rename_i hc
          simp [hc, quoteAfter]
        · rename_i hc
          simp [hc]
    | cons d a =>
      cases q with
      | some q =>
        rw [splitTag, quoteAfter, Option.map_eq_some_iff]
        constructor
        · rintro ⟨⟨a', b'⟩, hsplit, heq⟩
          cases heq
          obtain ⟨rfl, hquote⟩ := ih.1 hsplit
          exact ⟨rfl, hquote⟩
        · rintro ⟨heq, hquote⟩
          cases heq
          exact ⟨(a, b), ih.2 ⟨rfl, hquote⟩, rfl⟩
      | none =>
        rw [splitTag, quoteAfter]
        split
        · rename_i hc
          constructor
          · intro h
            cases h
          · rintro ⟨heq, hquote⟩
            cases heq
            rw [if_pos hc] at hquote
            cases hquote
        · rename_i hc
          rw [Option.map_eq_some_iff]
          constructor
          · rintro ⟨⟨a', b'⟩, hsplit, heq⟩
            cases heq
            obtain ⟨rfl, hquote⟩ := ih.1 hsplit
            rw [if_neg hc]
            exact ⟨rfl, hquote⟩
          · rintro ⟨heq, hquote⟩
            cases heq
            rw [if_neg hc] at hquote
            exact ⟨(a, b), ih.2 ⟨rfl, hquote⟩, rfl⟩

theorem not_mem_of_splitAtFirst {c : Char} {cs a b : List Char}
    (h : splitAtFirst c cs = some (a, b)) : c ∉ a := by
  induction cs generalizing a with
  | nil => cases h
  | cons d cs ih =>
    rw [splitAtFirst] at h
    split at h
    · cases h
      simp
    · rename_i hd
      obtain ⟨⟨a', b'⟩, hsplit, heq⟩ := Option.map_eq_some_iff.1 h
      cases heq
      simp [ih hsplit, Ne.symm hd]

theorem splitAtFirst_eq_some_iff {c : Char} {cs a b : List Char} :
    splitAtFirst c cs = some (a, b) ↔ cs = a ++ c :: b ∧ c ∉ a := by
  constructor
  · intro h
    exact ⟨append_of_splitAtFirst h, not_mem_of_splitAtFirst h⟩
  · rintro ⟨rfl, hc⟩
    exact splitAtFirst_append hc b

def startsMarkup : List Char → Bool
  | '!' :: _ | '?' :: _ => true
  | '/' :: c :: _ => isAsciiLetter c
  | c :: _ => isAsciiLetter c
  | [] => false

theorem ne_bracket_of_isAsciiLetter {c : Char} (hc : isAsciiLetter c = true) : c ≠ '>' := by
  rintro rfl
  exact absurd hc (by decide)

theorem cons_eq_append_of_letter {c : Char} {cs a b : List Char} (hc : isAsciiLetter c = true)
    (h : c :: cs = a ++ '>' :: b) : ∃ a', a = c :: a' ∧ cs = a' ++ '>' :: b := by
  cases a with
  | nil => exact absurd (List.cons.inj h).1 (ne_bracket_of_isAsciiLetter hc)
  | cons d a =>
    obtain ⟨rfl, hcs⟩ := List.cons.inj h
    exact ⟨a, rfl, hcs⟩

/-- What is read from the front of a text: a token, with the rest of the text left. -/
inductive Reads : Token → List Char → List Char → Prop
  | plain {c : Char} (hc : c ≠ '<') (rest : List Char) : Reads (.plain c) (c :: rest) rest
  | bracket {rest : List Char} (h : startsMarkup rest = false) : Reads .bracket ('<' :: rest) rest
  | comment {cs rest : List Char} (h : afterComment? cs = some rest) :
      Reads .dropped ('<' :: '!' :: '-' :: '-' :: cs) rest
  | declaration {c : Char} {cs body rest : List Char} (hc : c = '!' ∨ c = '?')
      (hdashes : c = '!' → ¬ ['-', '-'] <+: cs) (h : splitAtFirst '>' cs = some (body, rest)) :
      Reads .dropped ('<' :: c :: cs) rest
  | closing {c : Char} {body : List Char} (hc : isAsciiLetter c = true) (h : '>' ∉ c :: body)
      (rest : List Char) :
      Reads (.closing (c :: body)) ('<' :: '/' :: c :: (body ++ '>' :: rest)) rest
  | script {c : Char} {body : List Char} (hc : isAsciiLetter c = true)
      (h : IsBalanced (c :: body)) (hname : scriptTags.contains (tagName (c :: body)) = true)
      (rest : List Char) :
      Reads .dropped ('<' :: c :: (body ++ '>' :: rest))
        (afterElement (tagName (c :: body)).toList rest)
  | opening {c : Char} {body : List Char} (hc : isAsciiLetter c = true)
      (h : IsBalanced (c :: body)) (hname : scriptTags.contains (tagName (c :: body)) = false)
      (rest : List Char) :
      Reads (.opening (c :: body)) ('<' :: c :: (body ++ '>' :: rest)) rest

theorem afterBracket_of_letter {start : Nat} {c : Char} {body : List Char}
    (hc : isAsciiLetter c = true) (h : IsBalanced (c :: body)) (rest : List Char) :
    afterBracket start (c :: (body ++ '>' :: rest)) =
      if scriptTags.contains (tagName (c :: body)) then
        .ok (dropped, afterElement (tagName (c :: body)).toList rest)
      else .ok (opening (c :: body), rest) := by
  have hne (d : Char) (hd : isAsciiLetter d = false) : c ≠ d := by
    rintro rfl
    exact absurd hc (by rw [hd]; decide)
  rw [afterBracket.eq_5 _ _ _ (fun _ hbang _ => hne '!' (by decide) hbang) (hne '!' (by decide))
    (hne '?' (by decide)) fun _ _ hslash _ => hne '/' (by decide) hslash, if_pos hc,
    splitTag_eq_some_iff.2 ⟨(List.cons_append ..).symm, h⟩]

/-- The scanner reads what the relation says, wherever in a text it stands. -/
theorem afterBracket_eq_ok_iff {start : Nat} {cs rest : List Char} {t : Token} :
    afterBracket start cs = .ok (t, rest) ↔ Reads t ('<' :: cs) rest := by
  constructor
  · intro h
    unfold afterBracket at h
    split at h
    · split at h
      · rename_i hend
        cases h
        exact .comment hend
      · cases h
    · rename_i cs hdashes
      split at h
      · rename_i hend
        cases h
        refine .declaration (.inl rfl) (fun _ hprefix => ?_) hend
        obtain ⟨ds, rfl⟩ := hprefix
        exact hdashes ds rfl
      · cases h
    · split at h
      · rename_i hend
        cases h
        exact .declaration (.inr rfl) (fun h => absurd h (by decide)) hend
      · cases h
    · rename_i c cs
      split at h
      · rename_i hc
        split at h
        · rename_i hend
          cases h
          obtain ⟨heq, hbody⟩ := splitAtFirst_eq_some_iff.1 hend
          obtain ⟨body, rfl, rfl⟩ := cons_eq_append_of_letter hc heq
          exact .closing hc hbody _
        · cases h
      · rename_i hc
        cases h
        exact .bracket (Bool.eq_false_iff.2 hc)
    · rename_i c cs hbang hquestion hslash
      split at h
      · rename_i hc
        split at h
        · rename_i hend
          obtain ⟨heq, hbody⟩ := splitTag_eq_some_iff.1 hend
          obtain ⟨body, rfl, rfl⟩ := cons_eq_append_of_letter hc heq
          split at h
          · rename_i hname
            cases h
            exact .script hc hbody hname _
          · rename_i hname
            cases h
            exact .opening hc hbody (Bool.eq_false_iff.2 hname) _
        · cases h
      · rename_i hc
        cases h
        refine .bracket ?_
        rw [startsMarkup.eq_4 _ _ hbang hquestion hslash]
        exact Bool.eq_false_iff.2 hc
    · cases h
      exact .bracket rfl
  · intro h
    cases h with
    | plain hc => exact absurd rfl hc
    | bracket h =>
      fun_cases startsMarkup cs with
      | case1 => cases h
      | case2 => cases h
      | case3 c cs =>
        rw [startsMarkup] at h
        rw [afterBracket, if_neg (by rw [h]; decide)]
      | case4 c cs hbang hquestion hslash =>
        rw [startsMarkup.eq_4 _ _ hbang hquestion hslash] at h
        rw [afterBracket.eq_5 _ _ _ (fun _ hc _ => hbang hc) hbang hquestion hslash,
          if_neg (by rw [h]; decide)]
      | case5 => rfl
    | comment h => rw [afterBracket, h]
    | @declaration c cs body _ hc hdashes h =>
      rcases hc with rfl | rfl
      · rw [afterBracket.eq_2 _ _ fun cs' hcs => hdashes rfl ⟨cs', hcs.symm⟩, h]
      · rw [afterBracket, h]
    | @closing c body hc h =>
      have hend : splitAtFirst '>' (c :: (body ++ '>' :: rest)) = some (c :: body, rest) :=
        splitAtFirst_append h rest
      rw [afterBracket, if_pos hc, hend]
    | script hc h hname rest =>
      rw [afterBracket_of_letter hc h, if_pos hname]
    | opening hc h hname =>
      rw [afterBracket_of_letter hc h, if_neg (by rw [hname]; decide)]

/-- A token is found at the front of a text, and nothing else. -/
theorem Reads.unique {t t' : Token} {cs rest rest' : List Char} (h : t.Reads cs rest)
    (h' : t'.Reads cs rest') : t = t' ∧ rest = rest' := by
  cases cs with
  | nil => cases h
  | cons c cs =>
    by_cases hc : c = '<'
    · subst hc
      have hread : afterBracket 0 cs = .ok (t, rest) := afterBracket_eq_ok_iff.2 h
      rw [afterBracket_eq_ok_iff.2 h'] at hread
      cases hread
      exact ⟨rfl, rfl⟩
    · cases h with
      | plain _ =>
        cases h' with
        | plain _ => exact ⟨rfl, rfl⟩
        | _ => exact absurd rfl hc
      | _ => exact absurd rfl hc

end Token

inductive Tokenizes : List Char → List Token → Prop
  | nil : Tokenizes [] []
  | cons {t : Token} {cs rest : List Char} {ts : List Token} (h : t.Reads cs rest)
      (hrest : Tokenizes rest ts) : Tokenizes cs (t :: ts)

theorem Tokenizes.reads_of_mem {cs : List Char} {ts : List Token} (h : Tokenizes cs ts)
    {t : Token} (ht : t ∈ ts) : ∃ cs rest, t.Reads cs rest := by
  induction h with
  | nil => cases ht
  | cons hread _ ih =>
    rcases List.mem_cons.1 ht with rfl | ht
    · exact ⟨_, _, hread⟩
    · exact ih ht

theorem Token.Reads.tokenizes_iff {t : Token} {cs rest : List Char} {ts : List Token}
    (h : t.Reads cs rest) : Tokenizes cs ts ↔ ∃ ts', ts = t :: ts' ∧ Tokenizes rest ts' := by
  constructor
  · intro hts
    cases hts with
    | nil => cases h
    | cons h' hrest =>
      obtain ⟨rfl, rfl⟩ := h.unique h'
      exact ⟨_, rfl, hrest⟩
  · rintro ⟨ts, rfl, hrest⟩
    exact .cons h hrest

theorem scan_eq_ok_iff {total : Nat} {cs : List Char} {ts : List Token} :
    scan total cs = .ok ts ↔ Tokenizes cs ts := by
  constructor
  · intro h
    fun_induction scan total cs generalizing ts with
    | case1 =>
      cases h
      exact .nil
    | case2 cs e he => cases h
    | case3 cs t rest hread _ ih =>
      obtain ⟨ts, hrest, rfl⟩ := map_eq_ok_iff.1 h
      exact .cons (Token.afterBracket_eq_ok_iff.1 hread) (ih hrest)
    | case4 c cs hc ih =>
      obtain ⟨ts, hrest, rfl⟩ := map_eq_ok_iff.1 h
      exact .cons (.plain hc cs) (ih hrest)
  · intro h
    induction h with
    | nil => rw [scan]
    | @cons t cs rest ts h hrest ih =>
      cases cs with
      | nil => cases h
      | cons c cs =>
        rw [scan]
        split
        · rename_i hc
          subst hc
          split
          · rename_i e he
            rw [Token.afterBracket_eq_ok_iff.2 h] at he
            cases he
          · rename_i t' rest' hread
            rw [Token.afterBracket_eq_ok_iff.2 h] at hread
            cases hread
            rw [ih]
            rfl
        · rename_i hc
          cases h with
          | plain _ =>
            rw [ih]
            rfl
          | _ => exact absurd rfl hc

theorem tokens_eq_ok_iff {cs : List Char} {ts : List Token} :
    tokens cs = .ok ts ↔ Tokenizes cs ts := scan_eq_ok_iff

theorem sanitize_eq_ok_iff {policy : Policy} {text out : String} :
    sanitize policy text = .ok out ↔ ∃ ts, Tokenizes text.toList ts ∧
      String.ofList (ts.flatMap (Token.emit policy)) = out := by
  simp only [sanitize, map_eq_ok_iff, tokens_eq_ok_iff]

def isTagChar (c : Char) : Bool := isAsciiLetter c || isAsciiDigit c

def tagChars (body : List Char) : List Char := body.takeWhile isTagChar

def tagRest (body : List Char) : List Char := body.drop (tagName body).length

theorem tagName_eq (body : List Char) :
    tagName body = String.ofList ((tagChars body).map Char.toLower) := rfl

theorem length_tagName (body : List Char) : (tagName body).length = (tagChars body).length := by
  simp [tagName_eq]

theorem take_length_tagName (body : List Char) :
    body.take (tagName body).length = tagChars body := by
  rw [length_tagName]
  exact (List.prefix_iff_eq_take.1 (List.takeWhile_prefix isTagChar)).symm

theorem tagChars_append_tagRest (body : List Char) : tagChars body ++ tagRest body = body := by
  rw [← take_length_tagName, tagRest, List.take_append_drop]

theorem isTagChar_of_mem_tagChars {body : List Char} {c : Char} (hc : c ∈ tagChars body) :
    isTagChar c = true :=
  List.mem_takeWhile_imp hc

namespace Token

/-- The text from which a token was read that is not dropped. -/
def source : Token → List Char
  | plain c => [c]
  | bracket => ['<']
  | closing body => '<' :: '/' :: body ++ ['>']
  | opening body => '<' :: body ++ ['>']
  | dropped => []

def isAllowed (policy : Policy) : Token → Bool
  | plain _ => true
  | closing body => policy.allowsTag (tagName body)
  | opening body =>
    policy.allowsTag (tagName body) &&
      (attributes (tagRest body)).all (policy.accepts (tagName body))
  | bracket | dropped => false

theorem emit_opening (policy : Policy) (body : List Char) :
    (opening body).emit policy =
      if !policy.allowsTag (tagName body) then []
      else if (attributes (tagRest body)).all (policy.accepts (tagName body)) then
        (opening body).source
      else rebuilt policy body := rfl

theorem emit_of_isAllowed {policy : Policy} {t : Token} (h : t.isAllowed policy = true) :
    t.emit policy = t.source := by
  cases t with
  | plain c => rfl
  | bracket => cases h
  | closing body => exact if_pos h
  | opening body =>
    rw [isAllowed, Bool.and_eq_true] at h
    rw [emit_opening, h.1, h.2]
    rfl
  | dropped => cases h

/-- Whether a token is read from its text again: a character that starts nothing, or a tag that
ends where its text does. -/
def IsDelimited : Token → Prop
  | plain c => c ≠ '<'
  | closing body => body.head?.any isAsciiLetter = true ∧ '>' ∉ body
  | opening body => body.head?.any isAsciiLetter = true ∧ IsBalanced body ∧
      scriptTags.contains (tagName body) = false
  | bracket | dropped => False

theorem Reads.isDelimited {t : Token} {cs rest : List Char} (h : t.Reads cs rest)
    (hbracket : t ≠ .bracket) (hdropped : t ≠ .dropped) : t.IsDelimited := by
  cases h with
  | plain hc => exact hc
  | bracket => exact absurd rfl hbracket
  | comment => exact absurd rfl hdropped
  | declaration => exact absurd rfl hdropped
  | script => exact absurd rfl hdropped
  | closing hc h => exact ⟨hc, h⟩
  | opening hc h hname => exact ⟨hc, h, hname⟩

theorem IsDelimited.reads {t : Token} (h : t.IsDelimited) (rest : List Char) :
    t.Reads (t.source ++ rest) rest := by
  cases t with
  | plain c => exact .plain h rest
  | bracket => cases h
  | dropped => cases h
  | closing body =>
    cases body with
    | nil => cases h.1
    | cons c body =>
      have hreads := Reads.closing (c := c) h.1 h.2 rest
      simpa [source] using hreads
  | opening body =>
    cases body with
    | nil => cases h.1
    | cons c body =>
      have hreads := Reads.opening (c := c) h.1 h.2.1 h.2.2 rest
      simpa [source] using hreads

end Token

theorem tokenizes_of_isDelimited {ts : List Token} (h : ∀ t ∈ ts, t.IsDelimited) :
    Tokenizes (ts.flatMap Token.source) ts := by
  induction ts with
  | nil => exact .nil
  | cons t ts ih =>
    obtain ⟨ht, hts⟩ := List.forall_mem_cons.1 h
    exact .cons (ht.reads _) (ih hts)

/-- Whether a text is made up of allowed tokens. -/
def ReadsBack (policy : Policy) (cs : List Char) : Prop :=
  ∃ ts : List Token, (∀ t ∈ ts, t.IsDelimited ∧ t.isAllowed policy = true) ∧
    ts.flatMap Token.source = cs

namespace ReadsBack

variable {policy : Policy}

theorem nil : ReadsBack policy [] := ⟨[], nofun, rfl⟩

theorem token {t : Token} (h : t.IsDelimited) (hallowed : t.isAllowed policy = true) :
    ReadsBack policy t.source := by
  refine ⟨[t], ?_, ?_⟩
  · rintro t' ht'
    rw [List.mem_singleton.1 ht']
    exact ⟨h, hallowed⟩
  · simp

theorem append {cs ds : List Char} (hcs : ReadsBack policy cs) (hds : ReadsBack policy ds) :
    ReadsBack policy (cs ++ ds) := by
  obtain ⟨ts, hts, rfl⟩ := hcs
  obtain ⟨us, hus, rfl⟩ := hds
  refine ⟨ts ++ us, ?_, List.flatMap_append⟩
  intro t ht
  exact (List.mem_append.1 ht).elim (hts t) (hus t)

theorem flatMap {α : Type} {as : List α} {f : α → List Char}
    (h : ∀ a ∈ as, ReadsBack policy (f a)) : ReadsBack policy (as.flatMap f) := by
  induction as with
  | nil => exact nil
  | cons a as ih =>
    obtain ⟨ha, has⟩ := List.forall_mem_cons.1 h
    exact ha.append (ih has)

theorem plain {cs : List Char} (h : '<' ∉ cs) : ReadsBack policy cs := by
  refine ⟨cs.map .plain, ?_, ?_⟩
  · rintro t ht
    obtain ⟨c, hc, rfl⟩ := List.mem_map.1 ht
    exact ⟨fun heq => h (heq ▸ hc), rfl⟩
  · simp [List.flatMap_map, Token.source]

/-- A text that is made up of allowed tokens is left alone. -/
theorem sanitize {text : String} (h : ReadsBack policy text.toList) :
    sanitize policy text = .ok text := by
  obtain ⟨ts, hts, heq⟩ := h
  refine sanitize_eq_ok_iff.2 ⟨ts, ?_, ?_⟩
  · rw [← heq]
    exact tokenizes_of_isDelimited fun t ht => (hts t ht).1
  · have hemit : ts.flatMap (Token.emit policy) = ts.flatMap Token.source :=
      List.flatMap_congr fun t ht => Token.emit_of_isAllowed (hts t ht).2
    rw [hemit, heq, String.ofList_toList]

end ReadsBack

end MeetingLedger.Markup
