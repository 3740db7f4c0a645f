import Mathlib.Data.List.Infix
import Mathlib.Data.Nat.Find
import MeetingLedger.Proofs.Markup.Tokens

/-!
# Scripts

A script starts with a tag that is known by its whole name, and it ends at the first end tag that begins
with the name. An end tag with a longer name therefore ends it too, if it is closed within the script, and
the text behind that tag is page text again. In all other cases the whole script is dropped.
-/

namespace MeetingLedger.Markup

section Sanitizing

variable {policy : Policy}

theorem toOption_sanitize_eq_some_iff {text out : String} :
    (sanitize policy text).toOption = some out ↔ ∃ ts, Tokenizes text.toList ts ∧
      String.ofList (ts.flatMap (Token.emit policy)) = out :=
  ⟨fun h => sanitize_eq_ok_iff.1 (eq_ok_of_toOption h), fun h => by
    rw [sanitize_eq_ok_iff.2 h]
    rfl⟩

/-- The allowed part of a text is that of its first token with that of the rest behind it. -/
theorem toOption_sanitize_of_reads {t : Token} {text rest : String}
    (h : t.Reads text.toList rest.toList) :
    (sanitize policy text).toOption =
      (sanitize policy rest).toOption.map (String.ofList (t.emit policy) ++ ·) := by
  refine Option.ext fun out => ?_
  rw [Option.map_eq_some_iff, toOption_sanitize_eq_some_iff]
  simp only [toOption_sanitize_eq_some_iff, h.tokenizes_iff]
  constructor
  · rintro ⟨_, ⟨ts, rfl, hts⟩, rfl⟩
    exact ⟨_, ⟨ts, hts, rfl⟩, by rw [List.flatMap_cons, String.ofList_append]⟩
  · rintro ⟨_, ⟨ts, hts, rfl⟩, rfl⟩
    exact ⟨_, ⟨ts, rfl, hts⟩, by rw [List.flatMap_cons, String.ofList_append]⟩

/-- Characters that open no tag are copied. -/
theorem toOption_sanitize_append {pre : String} (hpre : '<' ∉ pre.toList) (text : String) :
    (sanitize policy (pre ++ text)).toOption = (sanitize policy text).toOption.map (pre ++ ·) := by
  obtain ⟨cs, rfl⟩ : ∃ cs, pre = String.ofList cs := ⟨pre.toList, String.ofList_toList.symm⟩
  rw [String.toList_ofList] at hpre
  induction cs with
  | nil => simp
  | cons c cs ih =>
    rw [List.mem_cons, not_or] at hpre
    have hread : (Token.plain c).Reads (String.ofList (c :: cs) ++ text).toList
        (String.ofList cs ++ text).toList := by
      simpa using Token.Reads.plain (Ne.symm hpre.1) (cs ++ text.toList)
    rw [toOption_sanitize_of_reads hread, ih hpre.2, Option.map_map]
    refine congrArg (Option.map · _) (funext fun out => ?_)
    rw [Function.comp_apply, ← String.append_assoc, ← String.ofList_append]
    rfl

end Sanitizing

section EndTags

variable {t : String}

/-- Whether a text starts with an end tag with a name that begins with `t`, in either case. -/
def StartsEndTag (t : String) (cs : List Char) : Prop :=
  ∃ rest, cs = '<' :: '/' :: rest ∧ t.toList <+: (tagName rest).toList

/-- The first end tag in a script `body` with a name that begins with `t` is closed in the script, in
front of `left`. -/
def EndsEarly (t : String) (body left : List Char) : Prop :=
  ∃ front inside, body = front ++ '<' :: '/' :: (inside ++ '>' :: left) ∧ '>' ∉ inside ∧
    t.toList <+: (tagName inside).toList ∧
    ∀ before rest, body = before ++ rest → StartsEndTag t rest → front.length ≤ before.length

theorem tagName_of_scriptTag (ht : t ∈ scriptTags) :
    (∃ c cs, t.toList = c :: cs ∧ isAsciiLetter c = true) ∧ tagName t.toList = t := by
  simp only [scriptTags, List.mem_cons, List.not_mem_nil, or_false] at ht
  rcases ht with rfl | rfl
  · exact ⟨⟨'s', "cript".toList, by decide, by decide⟩, by decide⟩
  · exact ⟨⟨'s', "tyle".toList, by decide, by decide⟩, by decide⟩

theorem isTagChar_toLower (c : Char) : isTagChar c.toLower = isTagChar c := by
  cases hupper : isAsciiUpper c with
  | true => simp [isTagChar, isAsciiLetter, isAsciiLower_toLower hupper, hupper]
  | false => rw [toLower_eq_self hupper]

theorem toList_tagName (body : List Char) :
    (tagName body).toList = (body.map Char.toLower).takeWhile isTagChar := by
  have hpred : isTagChar ∘ Char.toLower = isTagChar := funext isTagChar_toLower
  rw [tagName_eq, String.toList_ofList, tagChars, List.takeWhile_map, hpred]

theorem isTagChar_of_scriptTag (ht : t ∈ scriptTags) {c : Char} (hc : c ∈ t.toList) :
    isTagChar c = true := by
  rw [← (tagName_of_scriptTag ht).2, toList_tagName] at hc
  exact List.mem_takeWhile_imp hc

theorem tagName_append_cons {c : Char} (hc : isTagChar c = false) (cs rest : List Char) :
    tagName (cs ++ c :: rest) = tagName cs := by
  have htake : (cs ++ c :: rest).takeWhile isTagChar = cs.takeWhile isTagChar := by
    induction cs with
    | nil => exact List.takeWhile_cons_of_neg (by simp [hc])
    | cons d cs ih => rw [List.cons_append, List.takeWhile_cons, List.takeWhile_cons, ih]
  rw [tagName_eq, tagName_eq, tagChars, tagChars, htake]

theorem startsEndTag_of_name {inside : List Char} (hname : t.toList <+: (tagName inside).toList)
    (rest : List Char) : StartsEndTag t ('<' :: '/' :: (inside ++ '>' :: rest)) :=
  ⟨_, rfl, by rwa [tagName_append_cons (by decide)]⟩

theorem prefix_takeWhile_iff {p : Char → Bool} {name cs : List Char}
    (h : ∀ c ∈ name, p c = true) : name <+: cs.takeWhile p ↔ name <+: cs := by
  refine ⟨fun hname => hname.trans (List.takeWhile_prefix p), ?_⟩
  rintro ⟨rest, rfl⟩
  rw [List.takeWhile_append_of_pos h]
  exact List.prefix_append _ _

/-- What the scanner looks for is an end tag with such a name. -/
theorem isPrefixOf_lowercase_iff (ht : t ∈ scriptTags) {cs : List Char} :
    ('<' :: '/' :: t.toList).isPrefixOf (cs.map Char.toLower) = true ↔ StartsEndTag t cs := by
  have hname (rest : List Char) :
      t.toList <+: (tagName rest).toList ↔ t.toList <+: rest.map Char.toLower := by
    rw [toList_tagName]
    exact prefix_takeWhile_iff fun c => isTagChar_of_scriptTag ht
  have hlt (c : Char) : '<' = c.toLower ↔ c = '<' :=
    eq_comm.trans (toLower_eq_iff_of_not_letter (by decide))
  have hslash (c : Char) : '/' = c.toLower ↔ c = '/' :=
    eq_comm.trans (toLower_eq_iff_of_not_letter (by decide))
  rw [List.isPrefixOf_iff_prefix, StartsEndTag]
  rcases cs with _ | ⟨c, _ | ⟨d, cs⟩⟩
  · simp
  · simp
  · simp only [List.map_cons, List.cons_prefix_cons, hlt, hslash, ← hname, List.cons.injEq]
    constructor
    · rintro ⟨rfl, rfl, hprefix⟩
      exact ⟨cs, ⟨rfl, rfl, rfl⟩, hprefix⟩
    · rintro ⟨_, ⟨rfl, rfl, rfl⟩, hprefix⟩
      exact ⟨rfl, rfl, hprefix⟩

/-- A bracket behind a text that is not empty has no part in the end tag that the text starts. -/
theorem startsEndTag_append_iff {cs : List Char} (hcs : cs ≠ []) (rest : List Char) :
    StartsEndTag t (cs ++ '<' :: rest) ↔ StartsEndTag t cs := by
  have hname (ds : List Char) := tagName_append_cons (c := '<') (by decide) ds rest
  rcases cs with _ | ⟨c, _ | ⟨d, cs⟩⟩
  · exact absurd rfl hcs
  · constructor
    · rintro ⟨_, heq, -⟩
      simp at heq
    · rintro ⟨_, heq, -⟩
      simp at heq
  · constructor
    · rintro ⟨_, heq, hprefix⟩
      cases heq
      change t.toList <+: (tagName (cs ++ '<' :: rest)).toList at hprefix
      rw [hname] at hprefix
      exact ⟨cs, rfl, hprefix⟩
    · rintro ⟨_, heq, hprefix⟩
      cases heq
      rw [← hname] at hprefix
      exact ⟨_, rfl, hprefix⟩

end EndTags

section Content

open Token

variable {t : String}

/-- Text in which no such end tag starts is passed over. -/
theorem afterElement_append (ht : t ∈ scriptTags) {front rest : List Char}
    (hfront : ∀ before ds, front = before ++ ds → ds ≠ [] → ¬ StartsEndTag t (ds ++ rest)) :
    afterElement t.toList (front ++ rest) = afterElement t.toList rest := by
  induction front with
  | nil => rfl
  | cons c front ih =>
    have hc : ¬ StartsEndTag t (c :: (front ++ rest)) := hfront [] _ rfl (List.cons_ne_nil _ _)
    rw [List.cons_append, afterElement, if_neg (by rwa [isPrefixOf_lowercase_iff ht])]
    refine ih fun before ds heq => hfront (c :: before) ds ?_
    rw [heq, List.cons_append]

theorem afterFirst_append {c : Char} {cs : List Char} (hc : c ∉ cs) (rest : List Char) :
    afterFirst c (cs ++ c :: rest) = rest := by
  rw [afterFirst, dropWhile_append_of_head? (bne_of_not_mem hc) (by simp)]
  rfl

theorem afterElement_of_endTag (ht : t ∈ scriptTags) {inside : List Char}
    (hname : t.toList <+: (tagName inside).toList) (hinside : '>' ∉ inside) (rest : List Char) :
    afterElement t.toList ('<' :: '/' :: (inside ++ '>' :: rest)) = rest := by
  have hstart := (isPrefixOf_lowercase_iff ht).2 (startsEndTag_of_name hname rest)
  have hclosed : '>' ∉ '<' :: '/' :: inside := by simp [hinside]
  rw [afterElement, if_pos hstart]
  exact afterFirst_append hclosed rest

theorem afterElement_of_first (ht : t ∈ scriptTags) {front rest : List Char}
    (hfirst : ∀ before ds, front ++ rest = before ++ ds → StartsEndTag t ds →
      front.length ≤ before.length) (after : List Char) :
    afterElement t.toList (front ++ rest ++ '<' :: after) =
      afterElement t.toList (rest ++ '<' :: after) := by
  rw [List.append_assoc]
  refine afterElement_append ht fun before ds hfront hds hstart => ?_
  rw [← List.append_assoc, startsEndTag_append_iff (by simp [hds])] at hstart
  have hle := hfirst before _ (by rw [hfront, List.append_assoc]) hstart
  have hpos := List.length_pos_iff.2 hds
  rw [hfront, List.length_append] at hle
  omega

/-- The text behind an end tag that ends the script early is read as page text. -/
theorem afterElement_of_endsEarly (ht : t ∈ scriptTags) {body left : List Char}
    (h : EndsEarly t body left) (after : List Char) :
    afterElement t.toList (body ++ '<' :: after) = left ++ '<' :: after := by
  obtain ⟨front, inside, rfl, hinside, hname, hfirst⟩ := h
  rw [afterElement_of_first ht hfirst, List.cons_append, List.cons_append, List.append_assoc,
    List.cons_append]
  exact afterElement_of_endTag ht hname hinside _

theorem exists_first_endTag {body : List Char}
    (h : ∃ before rest, body = before ++ rest ∧ StartsEndTag t rest) :
    ∃ front rest, body = front ++ rest ∧ StartsEndTag t rest ∧
      ∀ before rest, body = before ++ rest → StartsEndTag t rest →
        front.length ≤ before.length := by
  classical
  have hlength : ∃ n before rest, before.length = n ∧ body = before ++ rest ∧ StartsEndTag t rest := by
    obtain ⟨before, rest, hstart⟩ := h
    exact ⟨_, before, rest, rfl, hstart⟩
  obtain ⟨front, rest, hfront, hbody, hstart⟩ := Nat.find_spec hlength
  refine ⟨front, rest, hbody, hstart, fun before rest hbefore hrest => ?_⟩
  rw [hfront]
  exact Nat.find_min' hlength ⟨before, rest, rfl, hbefore, hrest⟩

/-- A script that does not end early is dropped with its end tag. -/
theorem afterElement_of_not_endsEarly (ht : t ∈ scriptTags) {body : List Char}
    (h : ∀ left, ¬ EndsEarly t body left) (post : List Char) :
    afterElement t.toList (body ++ '<' :: '/' :: (t.toList ++ '>' :: post)) = post := by
  have hend : '>' ∉ t.toList := fun hmem => absurd (isTagChar_of_scriptTag ht hmem) (by decide)
  by_cases hstarts : ∃ before rest, body = before ++ rest ∧ StartsEndTag t rest
  · -- the first end tag is not closed in the script, so that the end tag of the script closes it
    obtain ⟨front, rest, rfl, ⟨inside, rfl, hname⟩, hfirst⟩ := exists_first_endTag hstarts
    have hopen : '>' ∉ inside := by
      intro hmem
      obtain ⟨name, left, rfl, hclosed⟩ := List.eq_append_cons_of_mem hmem
      rw [tagName_append_cons (by decide)] at hname
      exact h left ⟨front, name, rfl, hclosed, hname, hfirst⟩
    have hsplit : '<' :: '/' :: inside ++ '<' :: '/' :: (t.toList ++ '>' :: post) =
        '<' :: '/' :: ((inside ++ '<' :: '/' :: t.toList) ++ '>' :: post) := by simp
    have hname' : t.toList <+: (tagName (inside ++ '<' :: '/' :: t.toList)).toList := by
      rwa [tagName_append_cons (by decide)]
    rw [afterElement_of_first ht hfirst, hsplit]
    exact afterElement_of_endTag ht hname' (by simp [hopen, hend]) post
  · have hnone (before ds : List Char) (hbody : body ++ [] = before ++ ds) (hds : StartsEndTag t ds) :
        body.length ≤ before.length :=
      absurd ⟨before, ds, by rw [← hbody, List.append_nil], hds⟩ hstarts
    have hskip := afterElement_of_first ht hnone ('/' :: (t.toList ++ '>' :: post))
    rw [List.append_nil, List.nil_append] at hskip
    rw [hskip]
    exact afterElement_of_endTag ht (by rw [(tagName_of_scriptTag ht).2]) hend post

/-- A script that ends early holds what the scanner looks for. -/
theorem not_endsEarly_of_absent (ht : t ∈ scriptTags) {body : List Char}
    (h : ¬ '<' :: '/' :: t.toList <:+: body.map Char.toLower) (left : List Char) :
    ¬ EndsEarly t body left := by
  rintro ⟨front, inside, rfl, -, hname, -⟩
  have hfound := List.isPrefixOf_iff_prefix.1
    ((isPrefixOf_lowercase_iff ht).2 (startsEndTag_of_name hname left))
  refine h (hfound.isInfix.trans ?_)
  rw [List.map_append]
  exact (List.suffix_append _ _).isInfix

end Content

section Elements

variable {policy : Policy} {t pre : String}

theorem toOption_sanitize_script (ht : t ∈ scriptTags) (text : String) :
    (sanitize policy ("<" ++ t ++ ">" ++ text)).toOption =
      (sanitize policy (String.ofList (Token.afterElement t.toList text.toList))).toOption := by
  obtain ⟨⟨c, cs, hcons, hc⟩, hname⟩ := tagName_of_scriptTag ht
  have hbalanced : Token.IsBalanced t.toList :=
    Token.isBalanced_of_forall (by decide) fun d hd => isTagChar_of_scriptTag ht hd
  have hread : Token.dropped.Reads ("<" ++ t ++ ">" ++ text).toList
      (String.ofList (Token.afterElement t.toList text.toList)).toList := by
    rw [hcons] at hbalanced hname
    have hscript := Token.Reads.script hc hbalanced
      (by rw [hname]; exact List.contains_iff_mem.2 ht) text.toList
    rw [hname] at hscript
    simpa [hcons] using hscript
  rw [toOption_sanitize_of_reads hread]
  simp [Token.emit]

def withScript (t pre body post : String) : String :=
  pre ++ ("<" ++ t ++ ">" ++ (body ++ ("</" ++ t ++ ">" ++ post)))

theorem toOption_sanitize_withScript (ht : t ∈ scriptTags) (hpre : '<' ∉ pre.toList)
    (body post : String) : (sanitize policy (withScript t pre body post)).toOption =
      (sanitize policy (String.ofList (Token.afterElement t.toList
        (body.toList ++ '<' :: '/' :: (t.toList ++ '>' :: post.toList))))).toOption.map
        (pre ++ ·) := by
  have htext : (body ++ ("</" ++ t ++ ">" ++ post)).toList =
      body.toList ++ '<' :: '/' :: (t.toList ++ '>' :: post.toList) := by simp
  rw [withScript, toOption_sanitize_append hpre, toOption_sanitize_script ht, htext]

/-- A script that does not end early is dropped, and the text behind it is read as it stands. -/
theorem sanitize_of_not_endsEarly (ht : t ∈ scriptTags) (hpre : '<' ∉ pre.toList) {body : String}
    (h : ∀ left, ¬ EndsEarly t body.toList left) (post : String) :
    (sanitize policy (withScript t pre body post)).toOption =
      (sanitize policy post).toOption.map (pre ++ ·) := by
  rw [toOption_sanitize_withScript ht hpre, afterElement_of_not_endsEarly ht h,
    String.ofList_toList]

/-- What a script leaves that ends early is read as page text, with the end tag of the script in it. -/
theorem sanitize_of_endsEarly (ht : t ∈ scriptTags) (hpre : '<' ∉ pre.toList) {body left : String}
    (h : EndsEarly t body.toList left.toList) (post : String) :
    (sanitize policy (withScript t pre body post)).toOption =
      (sanitize policy (left ++ ("</" ++ t ++ ">" ++ post))).toOption.map (pre ++ ·) := by
  have htext : String.ofList (left.toList ++ '<' :: '/' :: (t.toList ++ '>' :: post.toList)) =
      left ++ ("</" ++ t ++ ">" ++ post) := by
    rw [← String.toList_inj]
    simp
  rw [toOption_sanitize_withScript ht hpre, afterElement_of_endsEarly ht h, htext]

/-- A script is dropped, and the text behind it is read as it stands, exactly if the script does not end
early or what it leaves on the page makes no difference. -/
theorem sanitize_script_iff (policy : Policy) (ht : t ∈ scriptTags) (hpre : '<' ∉ pre.toList)
    (body post : String) :
    (sanitize policy (withScript t pre body post)).toOption =
        (sanitize policy post).toOption.map (pre ++ ·) ↔
      ∀ left : String, EndsEarly t body.toList left.toList →
        (sanitize policy (left ++ ("</" ++ t ++ ">" ++ post))).toOption =
          (sanitize policy post).toOption := by
  have hpre_injective : Function.Injective (Option.map (pre ++ ·)) :=
    Option.map_injective fun _ _ => (String.append_right_inj pre).1
  constructor
  · intro hdropped left hleft
    rw [sanitize_of_endsEarly ht hpre hleft] at hdropped
    exact hpre_injective hdropped
  · intro hsame
    by_cases hearly : ∃ left, EndsEarly t body.toList left
    · obtain ⟨left, hleft⟩ := hearly
      rw [← String.toList_ofList (l := left)] at hleft
      rw [sanitize_of_endsEarly ht hpre hleft, hsame _ hleft]
    · exact sanitize_of_not_endsEarly ht hpre (not_exists.1 hearly) post

theorem sanitize_script_of_comparison :
    let body := "if (a </re/.exec(b)) write('</SCRIP>')"
    "script" ∈ scriptTags ∧ '<' ∉ "Hello ".toList ∧
      (sanitize .strict (withScript "script" "Hello " body "<b>you</b>")).toOption =
        some "Hello <b>you</b>" := by
  have hscript : "script" ∈ scriptTags := by decide
  have hpre : '<' ∉ "Hello ".toList := by decide
  refine ⟨hscript, hpre, ?_⟩
  refine ((sanitize_script_iff .strict hscript hpre _ _).2 fun left hleft => ?_).trans
    (by decide +kernel)
  exact absurd hleft (not_endsEarly_of_absent hscript (by decide +kernel) _)

/-- What stands behind an end tag with a longer name becomes text of the page. -/
theorem longerName_shows_script :
    let body := "</scripty>alert(1)"
    "script" ∈ scriptTags ∧
      (∀ front rest, body.toList = front ++ '<' :: '/' :: rest → tagName rest ≠ "script") ∧
      sanitize .strict "" = .ok "" ∧
      sanitize .strict (withScript "script" "" body "") = .ok "alert(1)" ∧
      (sanitize .strict (withScript "script" "" body "")).toOption ≠
        (sanitize .strict "").toOption.map ("" ++ ·) := by
  have hnothing : sanitize .strict "" = .ok "" := eq_ok_of_toOption (by decide +kernel)
  have hshown : sanitize .strict (withScript "script" "" "</scripty>alert(1)" "") = .ok "alert(1)" :=
    eq_ok_of_toOption (by decide +kernel)
  refine ⟨by decide, fun front rest hbody => ?_, hnothing, hshown, ?_⟩
  · have htails : ∀ cs ∈ "</scripty>alert(1)".toList.tails,
        cs.take 2 = ['<', '/'] → tagName (cs.drop 2) ≠ "script" := by decide +kernel
    exact htails ('<' :: '/' :: rest) ((List.mem_tails _ _).2 ⟨front, hbody.symm⟩) rfl
  · rw [hnothing, hshown]
    decide

end Elements

end MeetingLedger.Markup
