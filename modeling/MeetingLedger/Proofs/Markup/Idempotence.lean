import MeetingLedger.Proofs.Markup.Rebuilt

/-!
# A second pass over a formatted text

What a pass copies, escapes or drops leaves nothing to do for the next one. Only a tag that is rebuilt
may: its attributes keep their spelling, and a quote that was harmless where it stood can change
where the rebuilt tag ends.
-/

namespace MeetingLedger.Markup

/-- Whether a tag that is rebuilt keeps tidy attributes only. -/
def KeepsTidy (policy : Policy) : Token → Prop
  | .opening body => policy.allowsTag (tagName body) = true →
      (attributes (tagRest body)).all (policy.accepts (tagName body)) = false →
      ∀ a ∈ keptAttributes policy (tagName body) (tagRest body), a.IsTidy
  | _ => True

instance : DecidablePred Token.IsBalanced :=
  fun cs => inferInstanceAs (Decidable (Token.quoteAfter none cs = some none))

instance : DecidablePred Attribute.IsTidy := fun a =>
  decidable_of_iff (Token.IsBalanced a.raw ∧ (a.raw = a.source ∨
      a.value.any (fun v => v.isEmpty || v.any (!isBlank ·)) = true))
    ⟨fun h => ⟨h.1, h.2⟩, fun h => ⟨h.1, h.2⟩⟩

instance (policy : Policy) : DecidablePred (KeepsTidy policy)
  | .opening _ => inferInstanceAs (Decidable (_ → _ → ∀ a ∈ _, Attribute.IsTidy a))
  | .plain _ | .bracket | .closing _ | .dropped => inferInstanceAs (Decidable True)

/-- What is made of a token is made up of allowed tokens. -/
theorem readsBack_emit {policy : Policy} {t : Token} {cs rest : List Char} (h : t.Reads cs rest)
    (htidy : KeepsTidy policy t) : ReadsBack policy (t.emit policy) := by
  by_cases hallowed : t.isAllowed policy = true
  · rw [Token.emit_of_isAllowed hallowed]
    refine .token (h.isDelimited ?_ ?_) hallowed
    · rintro rfl
      cases hallowed
    · rintro rfl
      cases hallowed
  · cases t with
    | plain c => exact absurd rfl hallowed
    | bracket => exact .plain (show '<' ∉ "&lt;".toList by decide)
    | dropped => exact .nil
    | closing body =>
      have hemit : (Token.closing body).emit policy = [] := if_neg hallowed
      rw [hemit]
      exact .nil
    | opening body =>
      cases htag : policy.allowsTag (tagName body) with
      | false =>
        have hemit : (Token.opening body).emit policy = [] := by simp [Token.emit_opening, htag]
        rw [hemit]
        exact .nil
      | true =>
        have hall : (attributes (tagRest body)).all (policy.accepts (tagName body)) = false := by
          simpa only [Token.isAllowed, htag, Bool.true_and, Bool.not_eq_true] using hallowed
        have hemit : (Token.opening body).emit policy =
            (Token.opening (rebuiltBody policy body)).source := by
          rw [Token.emit_opening, htag, hall, ← rebuilt_eq_source]
          rfl
        have hkept := htidy htag hall
        rw [hemit]
        exact .token (isDelimited_rebuilt (h.isDelimited (by simp) (by simp)) hkept)
          (isAllowed_rebuilt htag hkept)

/-- A second pass leaves alone what the first one makes of a text, unless a tag that is rebuilt keeps
an attribute that is not tidy. -/
theorem sanitize_twice {policy : Policy} {text : String} {ts : List Token}
    (hts : tokens text.toList = .ok ts) (htidy : ∀ t ∈ ts, KeepsTidy policy t) :
    ∃ out, sanitize policy text = .ok out ∧ sanitize policy out = .ok out := by
  have htokenizes := tokens_eq_ok_iff.1 hts
  refine ⟨_, sanitize_eq_ok_iff.2 ⟨ts, htokenizes, rfl⟩, ReadsBack.sanitize ?_⟩
  rw [String.toList_ofList]
  refine .flatMap fun t ht => ?_
  obtain ⟨cs, rest, hread⟩ := htokenizes.reads_of_mem ht
  exact readsBack_emit hread (htidy t ht)

theorem sanitize_twice_of_quotedBracket :
    let text := "<a onclick=go() href='/b' title=\"a > b\" />"
    ∃ ts, tokens text.toList = .ok ts ∧ (∀ t ∈ ts, KeepsTidy .strict t) ∧
      ∃ out, sanitize .strict text = .ok out ∧ sanitize .strict out = .ok out := by
  intro text
  obtain ⟨ts, hts, htidy⟩ := exists_eq_ok_of_any (x := tokens text.toList)
    (p := fun ts => decide (∀ t ∈ ts, KeepsTidy .strict t)) (by decide +kernel)
  exact ⟨ts, hts, of_decide_eq_true htidy, sanitize_twice hts (of_decide_eq_true htidy)⟩

/-- A second pass changes a rebuilt tag that keeps an attribute behind a loose quote, refuses one that
keeps an attribute with an open quotation, and changes one that keeps a blank value. -/
theorem second_pass_changes_tag :
    (sanitize .strict "<p x\" class=a><script>alert(1)</script> \" title=c>" =
        .ok "<p class=a><script>alert(1)</script> title=c>" ∧
      sanitize .strict "<p class=a><script>alert(1)</script> title=c>" =
        .ok "<p class=a> title=c>") ∧
    (sanitize .strict "<p class=a\"b onclick=c\"d>" = .ok "<p class=a\"b>" ∧
      (sanitize .strict "<p class=a\"b>").toOption = none) ∧
    sanitize .strict "<p class=\u000b zzz title=\"x onclick=alert(1) y\">" =
        .ok "<p class= title=\"x onclick=alert(1) y\">" ∧
      sanitize .strict "<p class= title=\"x onclick=alert(1) y\">" = .ok "<p class= title=\"x>" := by
  refine ⟨⟨eq_ok_of_toOption ?_, eq_ok_of_toOption ?_⟩, ⟨eq_ok_of_toOption ?_, ?_⟩,
    eq_ok_of_toOption ?_, eq_ok_of_toOption ?_⟩
  all_goals decide +kernel

end MeetingLedger.Markup
