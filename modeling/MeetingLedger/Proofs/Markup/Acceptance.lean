import MeetingLedger.Proofs.Markup.Rebuilt

/-!
# Texts that a pass leaves alone

A pass that gives a text back as it was has copied every token of it. What it cuts off at one place
is not made up for at another one: by a weight that counts an opening bracket for more than what it is
escaped by, and what stands between attributes for nothing, only copied tokens keep theirs.
-/

namespace MeetingLedger.Markup

open Attribute

/-- An opening bracket weighs more than the text that it is escaped by, and the blanks and slashes
that a rebuilt tag may gain weigh nothing. -/
def charWeight (c : Char) : Nat := if c = '<' then 5 else if isGap c then 0 else 1

def weight : List Char → Nat
  | [] => 0
  | c :: cs => charWeight c + weight cs

section Weight

@[simp] theorem weight_nil : weight [] = 0 := rfl

@[simp] theorem weight_cons (c : Char) (cs : List Char) :
    weight (c :: cs) = charWeight c + weight cs := rfl

@[simp] theorem weight_append (cs ds : List Char) : weight (cs ++ ds) = weight cs + weight ds := by
  induction cs with
  | nil => exact (Nat.zero_add _).symm
  | cons c cs ih => rw [List.cons_append, weight_cons, weight_cons, ih, Nat.add_assoc]

theorem weight_le_of_sublist {cs ds : List Char} (h : cs.Sublist ds) : weight cs ≤ weight ds := by
  induction h with
  | slnil => exact Nat.le_refl 0
  | cons c _ ih => exact Nat.le_trans ih (Nat.le_add_left _ _)
  | cons_cons c _ ih => exact Nat.add_le_add_left ih _

theorem charWeight_bracket : charWeight '<' = 5 := rfl

theorem charWeight_of_gap {c : Char} (hc : isGap c = true) : charWeight c = 0 := by
  have hne : c ≠ '<' := by
    rintro rfl
    exact absurd hc (by decide)
  rw [charWeight, if_neg hne, if_pos hc]

theorem charWeight_pos {c : Char} (hc : isGap c = false) : 0 < charWeight c := by
  rw [charWeight, if_neg (by rw [hc]; decide : ¬ isGap c = true)]
  split
  · exact Nat.succ_pos 4
  · exact Nat.one_pos

end Weight

section Attributes

variable {policy : Policy} {tag : String}

theorem weight_raw_le (a : Attribute) : weight a.raw ≤ weight a.source := by
  obtain ⟨bs, hsplit, -⟩ := exists_trimEnd_append a.source
  exact weight_le_of_sublist (hsplit ▸ List.sublist_append_left a.raw bs)

/-- Every attribute weighs something, by the character that it starts with. -/
theorem weight_source_take_pos {c : Char} (hc : isGap c = false) (cs : List Char) :
    0 < weight (take (c :: cs)).1.source := by
  have hsplit := (take_spec (c :: cs)).1
  cases hsource : (take (c :: cs)).1.source with
  | nil =>
    have hlength := length_take_lt cs hc
    rw [hsource, List.nil_append] at hsplit
    rw [← hsplit] at hlength
    exact absurd hlength (Nat.lt_irrefl _)
  | cons d ds =>
    rw [hsource] at hsplit
    obtain rfl := (List.cons.inj hsplit).1
    have hpos := charWeight_pos hc
    rw [weight_cons]
    omega

/-- The attributes that a tag keeps weigh no more than all that stands in it, and every attribute
that it does not keep makes a difference. -/
theorem weight_joinAttributes_add_le (policy : Policy) (tag : String) (cs : List Char) :
    weight (joinAttributes (keptAttributes policy tag cs)) +
      ((attributes cs).filter (!policy.accepts tag ·)).length ≤ weight cs := by
  induction cs using attributes.induct with
  | case1 => simp [keptAttributes_nil, joinAttributes]
  | case2 c cs hc ih =>
    rw [keptAttributes_of_gap hc, attributes_of_gap hc, weight_cons, charWeight_of_gap hc, Nat.zero_add]
    exact ih
  | case3 c cs hc _ ih =>
    have hgap := Bool.eq_false_iff.2 hc
    have hsplit := congrArg weight (take_spec (c :: cs)).1
    have hpos := weight_source_take_pos hgap cs
    have hraw := weight_raw_le (take (c :: cs)).1
    have hblank : charWeight ' ' = 0 := rfl
    rw [weight_append] at hsplit
    rw [keptAttributes_of_not_gap hgap, attributes_of_not_gap hgap]
    by_cases ha : policy.accepts tag (take (c :: cs)).1 = true
    · rw [if_pos ha, joinAttributes_cons, List.filter_cons_of_neg (by simp [ha])]
      simp only [weight_cons, weight_append] at hsplit ⊢
      omega
    · rw [if_neg ha, List.filter_cons_of_pos (by simp [ha]), List.length_cons]
      omega

/-- A tag that is rebuilt loses weight. -/
theorem weight_rebuilt_lt {body : List Char}
    (h : (attributes (tagRest body)).all (policy.accepts (tagName body)) = false) :
    weight (Token.rebuilt policy body) < weight (Token.opening body).source := by
  have hkept := weight_joinAttributes_add_le policy (tagName body) (tagRest body)
  have hdropped :
      0 < ((attributes (tagRest body)).filter (!policy.accepts (tagName body) ·)).length := by
    obtain ⟨a, ha, hnot⟩ := List.all_eq_false.1 h
    exact List.length_pos_of_mem (List.mem_filter.2 ⟨ha, by simpa using hnot⟩)
  have hslash : weight (slashOf body) = 0 := by
    rcases slashOf_cases body with hslash | hslash <;> rw [hslash] <;> rfl
  have hbody : weight body = weight (tagChars body) + weight (tagRest body) := by
    rw [← weight_append, tagChars_append_tagRest]
  rw [rebuilt_eq_source]
  simp only [Token.source, rebuiltBody, List.cons_append, weight_cons, weight_append, hbody, hslash]
  omega

end Attributes

namespace Token

variable {policy : Policy} {t : Token} {cs rest : List Char}

theorem suffix_of_afterComment (h : afterComment? cs = some rest) : rest <:+ cs := by
  fun_induction afterComment? cs with
  | case1 cs =>
    cases h
    exact ⟨['-', '-', '>'], rfl⟩
  | case2 c cs _ ih => exact (ih h).trans (List.suffix_cons c cs)
  | case3 => cases h

theorem afterElement_suffix (name cs : List Char) : afterElement name cs <:+ cs := by
  induction cs with
  | nil => exact List.suffix_rfl
  | cons c cs ih =>
    rw [afterElement]
    split
    · exact (List.drop_suffix 1 _).trans (List.dropWhile_suffix _)
    · exact ih.trans (List.suffix_cons c cs)

theorem Reads.weight_add_le (h : t.Reads cs rest) (hplain : ∀ c, t ≠ .plain c) :
    5 + weight rest ≤ weight cs := by
  have hsuffix : ∃ ds, cs = '<' :: ds ∧ rest <:+ ds := by
    cases h with
    | @plain c => exact absurd rfl (hplain c)
    | bracket => exact ⟨rest, rfl, List.suffix_rfl⟩
    | @comment ds _ hend => exact ⟨_, rfl, (suffix_of_afterComment hend).trans ⟨['!', '-', '-'], rfl⟩⟩
    | @declaration c ds body _ hc hdashes hend =>
      refine ⟨_, rfl, c :: body ++ ['>'], ?_⟩
      simp [(splitAtFirst_eq_some_iff.1 hend).1]
    | @closing c body => exact ⟨_, rfl, '/' :: c :: body ++ ['>'], by simp⟩
    | @script c body =>
      exact ⟨_, rfl, (afterElement_suffix _ _).trans ⟨c :: body ++ ['>'], by simp⟩⟩
    | @opening c body => exact ⟨_, rfl, c :: body ++ ['>'], by simp⟩
  obtain ⟨ds, rfl, hds⟩ := hsuffix
  rw [weight_cons, charWeight_bracket]
  exact Nat.add_le_add_left (weight_le_of_sublist hds.sublist) 5

/-- What is read as a token that is not dropped stands in the text as it is. -/
theorem Reads.eq_append (h : t.Reads cs rest) (hdropped : t ≠ .dropped) : cs = t.source ++ rest := by
  cases h with
  | comment => exact absurd rfl hdropped
  | declaration => exact absurd rfl hdropped
  | script => exact absurd rfl hdropped
  | plain => rfl
  | bracket => rfl
  | closing => simp [source]
  | opening => simp [source]

/-- A token that is not copied loses weight. -/
theorem Reads.weight_emit_lt (h : t.Reads cs rest) (hnot : t.isAllowed policy = false) :
    weight (t.emit policy) + weight rest < weight cs := by
  have hle (hplain : ∀ c, t ≠ .plain c) (hemit : weight (t.emit policy) ≤ 4) :
      weight (t.emit policy) + weight rest < weight cs := by
    have := h.weight_add_le hplain
    omega
  cases t with
  | plain c => cases hnot
  | bracket => exact hle (fun _ => by simp) (show weight "&lt;".toList ≤ 4 by decide)
  | dropped => exact hle (fun _ => by simp) (Nat.zero_le 4)
  | closing body =>
    refine hle (fun _ => by simp) ?_
    rw [isAllowed] at hnot
    simp [emit, hnot]
  | opening body =>
    cases htag : policy.allowsTag (tagName body) with
    | false => exact hle (fun _ => by simp) (by simp [emit_opening, htag])
    | true =>
      rw [isAllowed, htag, Bool.true_and] at hnot
      have hlt := weight_rebuilt_lt hnot
      rw [h.eq_append (by simp), weight_append, emit_opening, htag, hnot]
      exact Nat.add_lt_add_right hlt _

theorem Reads.weight_emit_le (h : t.Reads cs rest) (policy : Policy) :
    weight (t.emit policy) + weight rest ≤ weight cs := by
  cases hallowed : t.isAllowed policy with
  | false => exact (h.weight_emit_lt hallowed).le
  | true =>
    have hdropped : t ≠ .dropped := by
      rintro rfl
      cases hallowed
    rw [emit_of_isAllowed hallowed, h.eq_append hdropped, weight_append]

end Token

section Pass

variable {policy : Policy} {cs : List Char} {ts : List Token}

theorem weight_emit_le (h : Tokenizes cs ts) (policy : Policy) :
    weight (ts.flatMap (Token.emit policy)) ≤ weight cs := by
  induction h with
  | nil => exact Nat.le_refl 0
  | cons hread _ ih =>
    have hfirst := hread.weight_emit_le policy
    rw [List.flatMap_cons, weight_append]
    omega

/-- A pass that keeps the weight of a text copies every token. -/
theorem isAllowed_of_weight_le (h : Tokenizes cs ts)
    (hweight : weight cs ≤ weight (ts.flatMap (Token.emit policy))) :
    ∀ t ∈ ts, t.isAllowed policy = true := by
  induction h with
  | nil => exact nofun
  | @cons t cs rest ts hread hrest ih =>
    have hle := weight_emit_le hrest policy
    rw [List.flatMap_cons, weight_append] at hweight
    refine List.forall_mem_cons.2 ⟨?_, ih ?_⟩
    · by_contra hnot
      have hlt := hread.weight_emit_lt (Bool.eq_false_iff.2 hnot)
      omega
    · have hfirst := hread.weight_emit_le policy
      omega

theorem flatMap_emit_eq (h : Tokenizes cs ts) (hallowed : ∀ t ∈ ts, t.isAllowed policy = true) :
    ts.flatMap (Token.emit policy) = cs := by
  induction h with
  | nil => rfl
  | @cons t cs rest ts hread _ ih =>
    obtain ⟨ht, hts⟩ := List.forall_mem_cons.1 hallowed
    have hdropped : t ≠ .dropped := by
      rintro rfl
      cases ht
    rw [List.flatMap_cons, ih hts, Token.emit_of_isAllowed ht, hread.eq_append hdropped]

theorem sanitize_eq_self_iff_tokenizes {text : String} : sanitize policy text = .ok text ↔
    ∃ ts, Tokenizes text.toList ts ∧ ∀ t ∈ ts, t.isAllowed policy = true := by
  rw [sanitize_eq_ok_iff]
  constructor
  · rintro ⟨ts, hts, heq⟩
    refine ⟨ts, hts, isAllowed_of_weight_le hts ?_⟩
    rw [← String.toList_ofList (l := ts.flatMap _), heq]
  · rintro ⟨ts, hts, hallowed⟩
    refine ⟨ts, hts, ?_⟩
    rw [flatMap_emit_eq hts hallowed, String.ofList_toList]

theorem isSanitized_iff {text : String} :
    isSanitized policy text = true ↔ sanitize policy text = .ok text := by
  rw [isSanitized]
  cases sanitize policy text with
  | error e => simp
  | ok out => simp

end Pass

/-- A text is accepted exactly if it has tokens, none of which is an opening bracket that starts no tag,
a comment, a script or a tag with a name, or an attribute, that is not allowed. -/
theorem sanitize_eq_self_iff (policy : Policy) (text : String) :
    (isSanitized policy text = true ↔ sanitize policy text = .ok text) ∧
      (sanitize policy text = .ok text ↔ ∃ ts, tokens text.toList = .ok ts ∧
        ∀ t ∈ ts, t.isAllowed policy = true ∧ t ≠ .plain '<') := by
  refine ⟨isSanitized_iff, ?_⟩
  simp only [sanitize_eq_self_iff_tokenizes, tokens_eq_ok_iff]
  constructor
  · rintro ⟨ts, hts, hallowed⟩
    refine ⟨ts, hts, fun t ht => ⟨hallowed t ht, ?_⟩⟩
    rintro rfl
    obtain ⟨cs, rest, hread⟩ := hts.reads_of_mem ht
    cases hread with
    | plain hc => exact hc rfl
  · rintro ⟨ts, hts, hclean⟩
    exact ⟨ts, hts, fun t ht => (hclean t ht).1⟩

end MeetingLedger.Markup
