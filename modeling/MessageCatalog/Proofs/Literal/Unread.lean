/-
  MessageCatalog.Proofs.Literal.Unread — values that are neither texts nor objects.

  Such a value starts with code or a bracket, is a template with a substitution, or is a sum
  of strings with something else in it. Reading stops in front of what is no string, and from
  there the value is passed. Where passing stops early, at a line break or a comma outside
  brackets, what is left of the value has to be quiet.

  Proved: nothing is read of such a value, and the scan goes on with what ends it
  (`scan_unread`).
-/

import MessageCatalog.Proofs.Literal.Quiet
import MessageCatalog.Proofs.Literal.Strings

namespace MessageCatalog.Literal

open Source

/-! ## Templates that are not read -/

/-- Whether a dollar sign and a brace stand in the body of a template, with no backslash in
front of the sign. -/
def hasSubstitution : Text → Bool
  | [] => false
  | c :: r =>
    if c == '\\' then
      match r with
      | [] => false
      | _ :: s => hasSubstitution s
    else c != '`' && ((c == '$' && Text.headIs '{' r) || hasSubstitution r)

theorem hasSubstitution_raw {c : Code} (hc : c ≠ '\\') (t : Text) :
    hasSubstitution (c :: t) = (c != '`' && ((c == '$' && Text.headIs '{' t) || hasSubstitution t)) := by
  rw [hasSubstitution.eq_def]
  simp only [beq_eq_false_iff_ne.2 hc, Bool.false_eq_true, if_false]

theorem hasSubstitution_escape (d : Code) (t : Text) :
    hasSubstitution (('\\' : Code) :: d :: t) = hasSubstitution t := by
  rw [hasSubstitution.eq_def]
  rfl

theorem hasSubstitution_run {run : Text} (h : run.all isDigitOrBrace = true) (t : Text) :
    hasSubstitution (run ++ t) = hasSubstitution t := by
  induction run with
  | nil => rfl
  | cons c run ih =>
    rw [List.all_cons, Bool.and_eq_true] at h
    obtain ⟨hback, -, hdollar, hquote⟩ := digitOrBrace_inert h.1
    have hne : (c != '`') = true := bne_iff_ne.2 (quote_ne Quoted.isQuote_template hquote).symm
    rw [List.cons_append, hasSubstitution_raw hback, ih h.2, hne, beq_eq_false_iff_ne.2 hdollar]
    rfl

theorem hasSubstitution_after_escape {t : Text} (h : hasSubstitution (('\\' : Code) :: t) = true) :
    t ≠ [] ∧ hasSubstitution (t.drop (escape t).2) = true := by
  cases t with
  | nil => cases h
  | cons c r =>
    rw [hasSubstitution_escape] at h
    refine ⟨List.cons_ne_nil c r, ?_⟩
    by_cases hreturn : c = '\r' ∧ Text.headIs '\n' r = true
    · obtain ⟨rfl, hfeed⟩ := hreturn
      obtain ⟨u, rfl⟩ := Text.headIs_cons hfeed
      rw [hasSubstitution_raw (by decide)] at h
      exact h
    · obtain ⟨run, s, rfl, hdrop, hrun⟩ := escape_run hreturn
      rwa [hdrop, ← hasSubstitution_run hrun]

/-- A template with a substitution is no text, whether the budget ends in front of it or not. -/
theorem readBody_substituted {giveUp : Reading} {whole body : Text} (h : hasSubstitution body = true) {budget : Nat}
    (hg : budget < body.length → giveUp = ⟨none, skipString '`' whole⟩) (acc t : Text) :
    readBody '`' giveUp whole budget acc (body ++ ('`' : Code) :: t) = ⟨none, skipString '`' whole⟩ := by
  match body, budget with
  | [], _ => cases h
  | c :: r, 0 => rw [readBody_zero, hg (by simp)]
  | c :: r, b + 1 =>
    rw [List.cons_append]
    rw [List.length_cons] at hg
    by_cases hc : c = '\\'
    · subst hc
      obtain ⟨hne, hdrop⟩ := hasSubstitution_after_escape h
      have hle := escape_le r
      rw [readBody_escape (by decide), escape_append Quoted.isQuote_template hne, List.drop_append_of_le_length hle]
      exact readBody_substituted hdrop (fun hb => hg (by rw [List.length_drop] at hb; omega)) _ t
    · rw [hasSubstitution_raw hc, Bool.and_eq_true, bne_iff_ne] at h
      obtain ⟨hback, h⟩ := h
      by_cases hsub : c = '$' ∧ Text.headIs '{' r = true
      · obtain ⟨rfl, hbrace⟩ := hsub
        obtain ⟨u, rfl⟩ := Text.headIs_cons hbrace
        rw [readBody]
        rfl
      · have hrest : hasSubstitution r = true := by
          refine (Bool.or_eq_true_iff.1 h).resolve_left fun h => hsub ?_
          rwa [Bool.and_eq_true, beq_iff_eq] at h
        have hnone : ¬ (('`' : Code) = '`' ∧ c = '$' ∧ Text.headIs '{' (r ++ ('`' : Code) :: t) = true) := by
          rw [headIs_append (by decide)]
          exact fun e => hsub e.2
        rw [readBody_raw _ _ _ _ hc hback (.inl rfl) hnone]
        exact readBody_substituted hrest (fun hb => hg (by omega)) _ t
termination_by body.length
decreasing_by
  all_goals simp only [List.length_cons, List.length_drop]
  all_goals omega

theorem readString_substituted {body : Text} (h : hasSubstitution body = true) (hc : isClosed body = true) (n : Nat)
    (t : Text) : readString (some n) (('`' : Code) :: (body ++ ('`' : Code) :: t)) = ⟨none, t⟩ := by
  have hgive (hn : n < body.length) : n < (body ++ ('`' : Code) :: t).length := by
    rw [List.length_append]
    omega
  simp only [readString, Quoted.isQuote_template, Bool.not_true, Bool.false_eq_true, if_false]
  rw [readBody_substituted h fun hn => by rw [if_pos (hgive hn)], skipString_template hc]

/-! ## What is passed of a value -/

namespace Source.Tokens

/-- What is left to pass behind a string, `length` being that of the text so far: nothing is
if it is a text, with the strings that are added to it. -/
def summed? (limits : Limits) (length : Nat) : Tokens → Option Tokens
  | .code gap c h rest =>
    if c == '+' then
      match rest with
      | .string _ s tail =>
        if limits.maxValueLength ≤ s.body.length || limits.maxValueLength < length + s.denoted.length then some tail
        else tail.summed? limits (length + s.denoted.length)
      | .template _ body _ tail => if hasSubstitution body then some tail else none
      | .code _ _ _ _ | .group _ _ _ _ _ => some (.code gap c h rest)
      | .done => none
    else none
  | _ => none

/-- What is left to pass of a value that is neither a text nor an object. -/
def passedFrom? (limits : Limits) : Tokens → Option Tokens
  | .code [] c h rest => some (.code [] c h rest)
  | .group [] b inside close rest => if b == .curly then none else some (.group [] b inside close rest)
  | .template [] body _ rest => if hasSubstitution body then some rest else none
  | .string [] s rest =>
    if limits.maxValueLength ≤ s.body.length then some rest else rest.summed? limits s.denoted.length
  | _ => none

/-- Whether what stands behind the first line break or comma outside brackets is quiet. -/
def isContained (p : Tokens) : Bool := (p.unpassed []).isQuiet false

/-- Whether the tokens are a value that is neither a text nor an object, and is passed within
the limits. -/
def isUnread (limits : Limits) (behind : Text) (v : Tokens) : Bool :=
  v.isSlashed behind &&
    (v.passedFrom? limits).any fun p => p.isContained && decide (p.print.length ≤ limits.maxValueLength)

end Source.Tokens

section

variable {limits : Limits} {t : Text}

theorem plus_solid (gap : Gap) (u : Text) : skipTrivia (gap.print ++ ('+' : Code) :: u) = ('+' : Code) :: u := by
  rw [skipTrivia_gap, skipTrivia_cons (by decide) (by decide)]

theorem joinStrings_string (value : Text) (gap after : Gap) (s : Quoted) :
    joinStrings limits value (gap.print ++ ('+' : Code) :: (after.print ++ s.quote :: (s.body ++ s.quote :: t))) =
      if limits.maxValueLength ≤ s.body.length || limits.maxValueLength < value.length + s.denoted.length then
        ⟨none, t⟩
      else joinStrings limits (value ++ s.denoted) t := by
  have hprint : s.quote :: (s.body ++ s.quote :: t) = s.print ++ t := by simp [Quoted.print]
  rw [joinStrings_plus limits value (plus_solid gap _) (by rw [skipTrivia_gap, skipTrivia_quote s.isQuote]),
    if_pos s.isQuote, hprint]
  by_cases hlong : limits.maxValueLength ≤ s.body.length
  · rw [readString_long hlong]
    simp only [hlong, decide_true, Bool.true_or, if_true]
  · rw [readString_print s (Nat.lt_of_not_le hlong)]
    simp only [hlong, decide_false, Bool.false_or, decide_eq_true_eq]

theorem joinStrings_summed {p q : Tokens} {value : Text} (h : p.summed? limits value.length = some q)
    (hs : p.isSlashed t = true) : joinStrings limits value (p.print ++ t) = ⟨none, q.print ++ t⟩ := by
  generalize hn : value.length = n at h
  fun_induction Tokens.summed? limits n p generalizing value with
  | case1 n gap c _ hplus after s tail hlong =>
    obtain rfl := Option.some.inj h
    obtain rfl := beq_iff_eq.1 hplus
    rw [Tokens.code_append, Tokens.string_append, joinStrings_string, hn, if_pos hlong]
  | case2 n gap c _ hplus after s tail hlong ih =>
    simp only [Tokens.isSlashed, Bool.and_eq_true] at hs
    obtain rfl := beq_iff_eq.1 hplus
    rw [Tokens.code_append, Tokens.string_append, joinStrings_string, hn, if_neg hlong]
    exact ih hs.2 (by rw [List.length_append, hn]) h
  | case3 n gap c _ hplus after body hb tail hsub =>
    obtain rfl := Option.some.inj h
    obtain rfl := beq_iff_eq.1 hplus
    rw [Tokens.code_append, joinStrings_plus limits value (plus_solid gap _)
        (by rw [Tokens.template_append, skipTrivia_gap, skipTrivia_quote Quoted.isQuote_template]),
      if_pos Quoted.isQuote_template, readString_substituted hsub hb]
  | case5 n gap c _ hplus after d hd tail =>
    obtain rfl := Option.some.inj h
    simp only [Tokens.isSlashed, Bool.and_eq_true, Bool.not_eq_true'] at hs
    have hnot : ¬ isQuote d = true := by simp [(code_inert hd).2.1]
    obtain rfl := beq_iff_eq.1 hplus
    rw [Tokens.code_append, joinStrings_plus limits value (plus_solid gap _)
        (by rw [Tokens.code_append, skipTrivia_gap, skipTrivia_code hd (by simp [hs.2.1])]),
      if_neg hnot]
  | case6 n gap c _ hplus after b inside close tail =>
    obtain rfl := Option.some.inj h
    have hnot : ¬ isQuote b.opening = true := by simp [(opening_inert b).1]
    obtain rfl := beq_iff_eq.1 hplus
    rw [Tokens.code_append, joinStrings_plus limits value (plus_solid gap _)
        (by rw [Tokens.group_append, skipTrivia_gap, skipTrivia_opening]),
      if_neg hnot]
  | case4 | case7 | case8 | case9 => cases h

theorem isSlashed_summed {p q : Tokens} {n : Nat} (h : p.summed? limits n = some q) (hs : p.isSlashed t = true) :
    q.isSlashed t = true := by
  fun_induction Tokens.summed? limits n p with
  | case1 | case3 =>
    obtain rfl := Option.some.inj h
    rw [Tokens.isSlashed, Bool.and_eq_true] at hs
    exact hs.2
  | case2 n gap c _ hplus after s tail hlong ih =>
    rw [Tokens.isSlashed, Bool.and_eq_true] at hs
    exact ih h hs.2
  | case5 | case6 => exact Option.some.inj h ▸ hs
  | case4 | case7 | case8 | case9 => cases h

/-! ## The scan past a value -/

variable {base : Text} {depth : Nat}

/-- Wherever passing contained tokens stops, the scan gets to what ends the value. -/
theorem scan_contained {p : Tokens} (hp : p.isContained = true) (hs : p.isSlashed t = true)
    (hb : p.print.length ≤ limits.maxValueLength) (ht : Ends t) :
    scan limits base depth (skipValue [] limits.maxValueLength (p.print ++ t)) = scan limits base depth t := by
  obtain ⟨n, hn⟩ := Nat.exists_eq_add_of_le hb
  have hle : (p.unpassed []).print.length ≤ p.print.length := length_unpassed_le p
  have hcalm : Calm limits base depth t ((p.unpassed []).print ++ t) :=
    (calm_tokens (p.unpassed []) hp (isSlashed_unpassed hs) (sealed_end ht) (by rw [List.length_append]; omega)).1
  have hpass := skipValue_tokens p [] n hs
  rw [List.map_nil, ← hn] at hpass
  rw [hpass]
  exact hcalm.past (by rw [List.length_append]; omega)

theorem readValue_passed {s : Quoted} {rest p : Tokens} (hp : (Tokens.string [] s rest).passedFrom? limits = some p)
    (hs : rest.isSlashed t = true) :
    readValue limits (s.print ++ (rest.print ++ t)) = ⟨none, p.print ++ t⟩ ∧ p.isSlashed t = true := by
  rw [Tokens.passedFrom?] at hp
  split at hp
  · rename_i hlong
    obtain rfl := Option.some.inj hp
    exact ⟨readValue_long hlong _, hs⟩
  · rename_i hlong
    rw [readValue, readString_print s (Nat.lt_of_not_le hlong)]
    exact ⟨joinStrings_summed hp hs, isSlashed_summed hp hs⟩

theorem scan_unread {head : Head} (hh : head.fits limits = true) {v : Tokens} (hv : v.isUnread limits t = true)
    (ht : Ends t) : scan limits base depth (head.print ++ (v.print ++ t)) = scan limits base depth t := by
  rw [Tokens.isUnread, Bool.and_eq_true, Option.any_eq_true] at hv
  obtain ⟨hs, p, hp, hcontained⟩ := hv
  rw [Bool.and_eq_true, decide_eq_true_eq] at hcontained
  have hpass (hs : p.isSlashed t = true) :
      scan limits base depth (skipValue [] limits.maxValueLength (p.print ++ t)) = scan limits base depth t :=
    scan_contained hcontained.1 hs hcontained.2 ht
  have hgap (u : Text) : Gap.print [] ++ u = u := rfl
  match v with
  | .done => cases hp
  | .code [] c hc rest =>
    obtain rfl := Option.some.inj hp
    rw [Tokens.isSlashed, Bool.and_eq_true, Bool.not_eq_true'] at hs
    obtain ⟨-, hq, hb⟩ := code_inert hc
    rw [← hpass (by simp [Tokens.isSlashed, hs]), Tokens.code_append, hgap,
      scan_other base depth hh (skipTrivia_code hc (by simp [hs.1])) hq (hb .curly).1]
  | .string [] s rest =>
    have hprint : (Tokens.string [] s rest).print ++ t = s.print ++ (rest.print ++ t) := by
      simp [Tokens.string_append, Gap.print, Quoted.print]
    obtain ⟨hread, hslashed⟩ := readValue_passed hp hs
    rw [hprint, ← hpass hslashed]
    exact scan_read base depth hh s.isQuote hread
  | .template [] body hb rest =>
    rw [Tokens.passedFrom?] at hp
    split at hp
    · rename_i hsub
      obtain rfl := Option.some.inj hp
      have hread : readValue limits (('`' : Code) :: (body ++ ('`' : Code) :: (rest.print ++ t))) =
          ⟨none, rest.print ++ t⟩ := by rw [readValue, readString_substituted hsub hb]
      rw [← hpass hs, Tokens.template_append, hgap]
      exact scan_read base depth hh Quoted.isQuote_template hread
    · cases hp
  | .group [] b inside close rest =>
    rw [Tokens.passedFrom?] at hp
    split at hp
    · cases hp
    · rename_i hcurly
      obtain rfl := Option.some.inj hp
      have hbrace : b.opening ≠ '{' := by
        cases b with
        | round | square => decide
        | curly => exact absurd rfl hcurly
      rw [← hpass hs, Tokens.group_append, hgap,
        scan_other base depth hh (skipTrivia_opening b _) (opening_inert b).1 hbrace]

end

end MessageCatalog.Literal
