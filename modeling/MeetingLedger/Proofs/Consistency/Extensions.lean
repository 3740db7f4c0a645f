import MeetingLedger.Consistency.Checker
import MeetingLedger.Proofs.Container.Lookup
import MeetingLedger.Proofs.Fqid

/-!
# References in the extensions of motions

Which pieces of an extension a check takes for references to motions, and what it says of a text that
it finds nothing wrong with it. A name between brackets is looked at wherever it stands, but only if
its collection is written with letters and underscores: the full name of a model whose collection has
a digit in its name passes unread.
-/

namespace MeetingLedger.Consistency

/-- Whether a piece of text stands between brackets somewhere in a text. -/
def IsBracketed (raw text : String) : Prop := ("[" ++ raw ++ "]").toList <:+: text.toList

/-- A character of the collections that references name. -/
def isReferenceChar (c : Char) : Bool := isAsciiLower c || c == '_'

/-- Letters and underscores, a slash and digits of any script. -/
def IsReference (raw : List Char) : Prop :=
  ∃ name digits, raw = name ++ '/' :: digits ∧
    (name ≠ [] ∧ ∀ c ∈ name, isReferenceChar c = true) ∧
    (digits ≠ [] ∧ ∀ c ∈ digits, isDecimalDigit c = true)

/-- A motion that a snapshot holds. -/
def IsMotionOf (s : Snapshot) (f : Fqid) : Prop := f.collection = "motion" ∧ (s.get? f).isSome = true

instance (s : Snapshot) (f : Fqid) : Decidable (IsMotionOf s f) :=
  inferInstanceAs (Decidable (_ ∧ _))

/-- The references that a leftmost search meets which goes on behind each match: behind the opening
bracket of a match the rest of it is skipped. -/
def searched : Nat → List Char → List String
  | _, [] => []
  | skip + 1, _ :: cs => searched skip cs
  | 0, c :: cs =>
    match if c = '[' then bracketed? cs else none with
    | some raw => raw :: searched (raw.toList.length + 1) cs
    | none => searched 0 cs

section Names

variable {p : Char → Bool} {cs piece rest : List Char} {raw : String}

theorem takeSome?_eq_some_iff : takeSome? p cs = some (piece, rest) ↔
    cs = piece ++ rest ∧ (piece ≠ [] ∧ ∀ c ∈ piece, p c = true) ∧
      rest.head?.all (!p ·) = true := by
  rw [takeSome?]
  constructor
  · intro h
    split at h
    · cases h
    · rename_i hne
      cases h
      exact ⟨List.takeWhile_append_dropWhile.symm, ⟨by simpa using hne, fun c hc =>
        List.mem_takeWhile_imp hc⟩, head?_all_dropWhile p cs⟩
  · rintro ⟨rfl, ⟨hne, hpiece⟩, hrest⟩
    simp [takeWhile_append_of_head? hpiece hrest, dropWhile_append_of_head? hpiece hrest, hne]

theorem not_isReferenceChar_slash : isReferenceChar '/' = false := by decide

theorem not_isDecimalDigit_bracket : isDecimalDigit ']' = false := by decide

/-- Behind an opening bracket a reference is read that ends at the next closing one. -/
theorem bracketed?_eq_some_iff :
    bracketed? cs = some raw ↔ IsReference raw.toList ∧ raw.toList ++ [']'] <+: cs := by
  constructor
  · intro h
    simp only [bracketed?, Option.bind_eq_bind, Option.bind_eq_some_iff, Prod.exists] at h
    obtain ⟨name, behindName, hname, behindSlash, hslash, digits, behindDigits, hdigits, rest, hrest,
      hraw⟩ := h
    obtain ⟨rfl, hletters, -⟩ := takeSome?_eq_some_iff.1 hname
    obtain rfl := append_of_dropLiteral? hslash
    obtain ⟨rfl, hnumber, -⟩ := takeSome?_eq_some_iff.1 hdigits
    obtain rfl := append_of_dropLiteral? hrest
    obtain rfl := Option.some.inj hraw
    rw [String.toList_ofList]
    exact ⟨⟨name, digits, rfl, hletters, hnumber⟩, rest, by simp⟩
  · rintro ⟨⟨name, digits, hraw, hname, hdigits⟩, rest, rfl⟩
    have htakeName : takeSome? isReferenceChar (name ++ '/' :: (digits ++ ']' :: rest)) =
        some (name, '/' :: (digits ++ ']' :: rest)) :=
      takeSome?_eq_some_iff.2 ⟨rfl, hname, by simp [not_isReferenceChar_slash]⟩
    have htakeDigits : takeSome? isDecimalDigit (digits ++ ']' :: rest) =
        some (digits, ']' :: rest) :=
      takeSome?_eq_some_iff.2 ⟨rfl, hdigits, by simp [not_isDecimalDigit_bracket]⟩
    have htext : raw.toList ++ [']'] ++ rest = name ++ '/' :: (digits ++ ']' :: rest) := by
      simp [hraw]
    have hname_eq : (fun c => isAsciiLower c || c == '_') = isReferenceChar := rfl
    have hback : String.ofList (name ++ '/' :: digits) = raw := by rw [← hraw, String.ofList_toList]
    rw [htext, bracketed?, hname_eq, htakeName]
    simpa [dropLiteral?, htakeDigits] using hback

theorem IsReference.bracket_not_mem (h : IsReference raw.toList) : '[' ∉ raw.toList := by
  obtain ⟨name, digits, hraw, ⟨-, hname⟩, -, hdigits⟩ := h
  rw [hraw, List.mem_append, List.mem_cons]
  rintro (hmem | heq | hmem)
  · exact absurd (hname _ hmem) (by decide)
  · exact absurd heq (by decide)
  · exact absurd (hdigits _ hmem) (by decide)

theorem bracketedNames_cons {c : Char} (cs : List Char) : bracketedNames (c :: cs) =
    (if c = '[' then bracketed? cs else none).toList ++ bracketedNames cs := by
  by_cases hc : c = '['
  · subst hc
    rfl
  · rw [bracketedNames.eq_3 _ _ hc, if_neg hc]
    rfl

/-- The references of a text are its pieces of their form that stand between brackets. -/
theorem mem_bracketedNames_iff : raw ∈ bracketedNames cs ↔
    IsReference raw.toList ∧ ("[" ++ raw ++ "]").toList <:+: cs := by
  have hpiece : ("[" ++ raw ++ "]").toList = '[' :: (raw.toList ++ [']']) := by simp
  rw [hpiece]
  induction cs with
  | nil => simp [bracketedNames]
  | cons c cs ih =>
    simp only [bracketedNames_cons, List.mem_append, ih, List.infix_cons_iff,
      List.cons_prefix_cons, and_or_left]
    apply or_congr_left
    by_cases hc : c = '['
    · simp [hc, bracketed?_eq_some_iff]
    · simp [hc, Ne.symm hc]

/-- No match of the search has a bracket inside that opens another one. -/
theorem searched_eq_bracketedNames {skip : Nat} (hskip : '[' ∉ cs.take skip) :
    searched skip cs = bracketedNames cs := by
  induction cs generalizing skip with
  | nil => simp [searched, bracketedNames]
  | cons c cs ih =>
    cases skip with
    | succ skip =>
      rw [List.take_succ_cons, List.mem_cons, not_or] at hskip
      rw [searched, ih hskip.2, bracketedNames_cons, if_neg (Ne.symm hskip.1)]
      rfl
    | zero =>
      rw [bracketedNames_cons, searched]
      split
      · rename_i raw hread
        have hbracketed : bracketed? cs = some raw := by
          split at hread
          · exact hread
          · cases hread
        obtain ⟨href, rest, hcs⟩ := bracketed?_eq_some_iff.1 hbracketed
        have hmatch : cs.take (raw.toList.length + 1) = raw.toList ++ [']'] := by
          rw [← hcs]
          exact List.take_left' (by simp)
        rw [hread, ih (by simpa [hmatch] using href.bracket_not_mem)]
        rfl
      · rename_i hread
        rw [hread, ih (by simp)]
        rfl

end Names

section Reported

variable {s : Snapshot} {motion : Instance} {field text raw : String}

theorem nameProblem?_eq_none_iff :
    nameProblem? s raw = none ↔ ∃ f, Fqid.parse? raw = some f ∧ IsMotionOf s f := by
  rw [nameProblem?]
  cases Fqid.parse? raw with
  | none => simp
  | some f =>
    by_cases hname : f.collection = "motion"
    · simp [IsMotionOf, hname, Option.isSome_iff_ne_none]
    · simp [IsMotionOf, hname]

/-- What is reported for the extension that a field holds. -/
def extensionReport (s : Snapshot) (motion : Instance) (field : String) :
    List (String × MotionProblem) :=
  match motion.get? field with
  | some (.string text) => (extensionProblems s text).map (field, ·)
  | _ => []

theorem filter_tagged (name : String) (problems : List MotionProblem) :
    (problems.map (name, ·)).filter (·.1 == field) =
      if name = field then problems.map (name, ·) else [] := by
  by_cases hname : name = field
  · rw [if_pos hname]
    exact List.filter_eq_self.2 (by simp [hname])
  · rw [if_neg hname]
    exact List.filter_eq_nil_iff.2 (by simp [hname])

theorem filter_extensionReport (name : String) :
    (extensionReport s motion name).filter (·.1 == field) =
      if name = field then extensionReport s motion name else [] := by
  rw [extensionReport]
  split
  · exact filter_tagged name _
  · simp

/-- What is reported for an extension are the problems of the references that the search meets. -/
theorem filter_motionProblems (hfield : field ∈ extensionFields)
    (htext : motion.get? field = some (.string text)) :
    (motionProblems s motion).filter (·.1 == field) =
      ((searched 0 text.toList).filterMap (nameProblem? s)).map (field, ·) := by
  have hreport : extensionReport s motion field =
      ((searched 0 text.toList).filterMap (nameProblem? s)).map (field, ·) := by
    rw [extensionReport, htext, searched_eq_bracketedNames (by simp)]
    rfl
  have hamendments : "amendment_paragraphs" ≠ field := by
    rintro rfl
    revert hfield
    decide
  have hproblems : motionProblems s motion =
      (((motion.get? "amendment_paragraphs").map amendmentProblems).getD []).map
        ("amendment_paragraphs", ·) ++ extensionFields.flatMap (extensionReport s motion) := rfl
  rw [hproblems, List.filter_append, filter_tagged, if_neg hamendments, List.filter_flatMap,
    List.nil_append, ← hreport]
  simp only [filter_extensionReport]
  simp only [extensionFields, List.mem_cons, List.not_mem_nil, or_false] at hfield
  rcases hfield with rfl | rfl
  · simp [extensionFields]
  · simp [extensionFields]

/-- Nothing is reported for an extension just if each piece of it between brackets that is written
like a reference is one to a motion of the snapshot. -/
theorem reports_nothing_iff (hfield : field ∈ extensionFields)
    (htext : motion.get? field = some (.string text)) :
    (∀ p, (field, p) ∉ motionProblems s motion) ↔
      ∀ raw, IsBracketed raw text → IsReference raw.toList →
        ∃ f, Fqid.parse? raw = some f ∧ IsMotionOf s f := by
  have hnone : (∀ p, (field, p) ∉ motionProblems s motion) ↔
      (motionProblems s motion).filter (·.1 == field) = [] := by
    rw [List.filter_eq_nil_iff]
    constructor
    · rintro hnot ⟨name, p⟩ hmem hname
      rw [beq_iff_eq] at hname
      exact hnot p (hname ▸ hmem)
    · intro hnot p hmem
      exact hnot (field, p) hmem (by simp)
  rw [hnone, filter_motionProblems hfield htext, searched_eq_bracketedNames (by simp),
    List.map_eq_nil_iff, List.filterMap_eq_nil_iff]
  simp only [mem_bracketedNames_iff, nameProblem?_eq_none_iff, IsBracketed]
  constructor
  · intro h raw hbracketed href
    exact h raw ⟨href, hbracketed⟩
  · rintro h raw ⟨href, hbracketed⟩
    exact h raw hbracketed href

/-- A full name is written like a reference unless its collection has a digit in its name. -/
theorem isReference_of_parse? {f : Fqid} (hparse : Fqid.parse? raw = some f)
    (hname : ∀ c ∈ f.collection.toList, isAsciiDigit c = false) : IsReference raw.toList := by
  obtain ⟨hcollection, hid, rfl⟩ := Fqid.parse?_eq_some_iff.1 hparse
  obtain ⟨hne, hchars⟩ := chars_of_isCollectionName hcollection
  refine ⟨_, _, Fqid.toList_text f, ⟨hne, fun c hc => ?_⟩, Nat.toDigits_ne_nil, fun c hc => ?_⟩
  · have hc' := hchars c hc
    rwa [hname c hc, Bool.or_false] at hc'
  · exact isDecimalDigit_of_isAsciiDigit (isAsciiDigit_of_mem_toDigits hc)

/-- What is reported for an extension are the problems of the references that a search meets which
goes on behind each match, and nothing is reported just if every piece between brackets that is
written like a reference is one to a motion of the snapshot. Then every full name between brackets
is such a motion, wherever it stands, just if none of them has a collection with a digit in its
name. -/
theorem unreported_extension_resolves_iff (hfield : field ∈ extensionFields)
    (htext : motion.get? field = some (.string text)) :
    (motionProblems s motion).filter (·.1 == field) =
      ((searched 0 text.toList).filterMap (nameProblem? s)).map (field, ·) ∧
    ((∀ p, (field, p) ∉ motionProblems s motion) ↔
      ∀ raw, IsBracketed raw text → IsReference raw.toList →
        ∃ f, Fqid.parse? raw = some f ∧ IsMotionOf s f) ∧
    ((∀ p, (field, p) ∉ motionProblems s motion) →
      ((∀ raw f, IsBracketed raw text → Fqid.parse? raw = some f → IsMotionOf s f) ↔
        ∀ raw f, IsBracketed raw text → Fqid.parse? raw = some f →
          ∀ c ∈ f.collection.toList, isAsciiDigit c = false)) := by
  refine ⟨filter_motionProblems hfield htext, reports_nothing_iff hfield htext, fun hnothing => ?_⟩
  have hresolved := (reports_nothing_iff hfield htext).1 hnothing
  constructor
  · intro hmotions raw f hbracketed hparse
    have hmotion : "motion".toList.all (!isAsciiDigit ·) = true := by decide +kernel
    rw [(hmotions raw f hbracketed hparse).1]
    simpa only [List.all_eq_true, Bool.not_eq_true'] using hmotion
  · intro hnames raw f hbracketed hparse
    have href := isReference_of_parse? hparse (hnames raw f hbracketed hparse)
    obtain ⟨g, hg, hmotion⟩ := hresolved raw hbracketed href
    obtain rfl : g = f := Option.some.inj (hg.symm.trans hparse)
    exact hmotion

/-- The fields of a motion that refers to another one and, between brackets as well, to a model of a
collection with a digit in its name. -/
def misreferring : Instance :=
  .ofList [("id", .ofNat 1), ("state_extension", .string "see [[motion/5] and [motion2/5]")]

/-- A snapshot with the motion that is referred to and no other collection. -/
def misreferred : Snapshot :=
  ((Snapshot.empty 4).insert "motion" 1 misreferring).insert "motion" 5 ∅

theorem misreferring_reports_nothing :
    ∀ p, ("state_extension", p) ∉ motionProblems misreferred misreferring := by
  have hnothing : (motionProblems misreferred misreferring).isEmpty = true := by decide +kernel
  rw [List.isEmpty_iff.1 hnothing]
  exact fun _ => List.not_mem_nil

theorem unreported_extension_resolves_of_misreferring :
    let text := "see [[motion/5] and [motion2/5]"
    "state_extension" ∈ extensionFields ∧
      misreferring.get? "state_extension" = some (.string text) ∧
      (∀ p, ("state_extension", p) ∉ motionProblems misreferred misreferring) ∧
      (∀ raw, IsBracketed raw text → IsReference raw.toList →
        ∃ f, Fqid.parse? raw = some f ∧ IsMotionOf misreferred f) ∧
      ¬ ∀ raw f, IsBracketed raw text → Fqid.parse? raw = some f → IsMotionOf misreferred f := by
  intro text
  have hfield : "state_extension" ∈ extensionFields := by decide
  have htext : misreferring.get? "state_extension" = some (.string text) := rfl
  obtain ⟨-, hclean, hmotions⟩ :=
    unreported_extension_resolves_iff (s := misreferred) hfield htext
  have hnothing := misreferring_reports_nothing
  refine ⟨hfield, htext, hnothing, hclean.1 hnothing, fun hall => ?_⟩
  have hdigits := (hmotions hnothing).1 hall "motion2/5" ⟨"motion2", 5⟩
    ⟨"see [[motion/5] and ".toList, [], by decide +kernel⟩ (by decide +kernel)
  exact absurd (hdigits '2' (by decide +kernel)) (by decide)

/-- A full name between brackets that is no motion and that nothing is said about. -/
theorem digitInName_passes_unreported :
    let text := "see [[motion/5] and [motion2/5]"
    misreferring.get? "state_extension" = some (.string text) ∧
      (∀ p, ("state_extension", p) ∉ motionProblems misreferred misreferring) ∧
      IsBracketed "motion2/5" text ∧ Fqid.parse? "motion2/5" = some ⟨"motion2", 5⟩ ∧
      misreferred.get? ⟨"motion2", 5⟩ = none ∧ ¬ IsMotionOf misreferred ⟨"motion2", 5⟩ := by
  intro text
  refine ⟨rfl, misreferring_reports_nothing, ⟨"see [[motion/5] and ".toList, [], ?_⟩, ?_, ?_, ?_⟩
  · decide +kernel
  · decide +kernel
  · exact Option.isNone_iff_eq_none.1 (by decide +kernel)
  · decide +kernel

end Reported

end MeetingLedger.Consistency
