/-
  MessageCatalog.Proofs.Literal.Strings — a string that is skipped and a string that is
  read.

  Past the letter of an escape there stand only digits and braces, which a cursor that
  skips takes one by one (`escape_run`). The exception is a line that is continued across a
  carriage return and its line feed: reading takes both, skipping takes the first, and
  outside of backticks the second then ends the string.

  Proved: wherever a string can be read, skipping it stops at the same place, if and only
  if it is in backticks or no line is continued so; otherwise it stops inside, at a line
  feed (`skipStringAt_read`).
-/

import MessageCatalog.Literal.Position
import MessageCatalog.Proofs.Literal.Suffix

namespace MessageCatalog.Literal

open Source

/-! ## Past an escape -/

/-- Neither a backslash, a quote, a line feed nor a dollar sign. -/
def isDigitOrBrace (c : Code) : Bool := Text.isHexDigit c || c == '{' || c == '}'

theorem digitOrBrace_inert {c : Nat} (h : isDigitOrBrace c = true) :
    c ≠ '\\' ∧ c ≠ '\n' ∧ c ≠ '$' ∧ isQuote c = false := by
  simp [isDigitOrBrace, Text.isHexDigit, Text.isDigit] at h
  simp [isQuote, isNameQuote]
  grind

/-- What an escape takes after its letter, but for a carriage return before a line feed. -/
theorem escape_run {c : Code} {r : Text} (h : ¬ (c = '\r' ∧ Text.headIs '\n' r = true)) :
    ∃ run s, r = run ++ s ∧ (c :: r).drop (escape (c :: r)).2 = s ∧ run.all isDigitOrBrace = true := by
  have hhex : ∀ ds : Text, ds.all Text.isHexDigit = true → ds.all isDigitOrBrace = true := fun ds hds =>
    List.all_eq_true.2 fun d hd => by simp [isDigitOrBrace, List.all_eq_true.1 hds d hd]
  have ht := escape_taken c r
  generalize (escape (c :: r)).2 = n at ht
  cases ht with
  | lineEnd hc hr => exact absurd ⟨hc, hr⟩ h
  | digits k hk hd => exact ⟨r.take k, r.drop k, (List.take_append_drop k r).symm, rfl, hhex _ hd⟩
  | braced s u k hr hd hu =>
    subst hr
    refine ⟨('{' : Code) :: (s.take k ++ [('}' : Code)]), u, ?_, ?_, ?_⟩
    · rw [List.cons_append, List.append_assoc, List.singleton_append, ← hu, List.take_append_drop]
    · simp [← List.drop_drop, hu]
    · simp [isDigitOrBrace, hhex _ hd]

theorem skipString_feed {q : Code} (hq : isQuote q = true) (hback : q ≠ '`') (t : Text) :
    skipString q (('\n' : Code) :: t) = ('\n' : Code) :: t := by
  have hne : ('\n' : Code) ≠ q := (quote_ne hq (by decide)).symm
  rw [skipString.eq_def]
  simp only
  rw [if_neg (by decide), if_neg (by simpa using hne), if_pos (by simpa using hback)]

theorem skipString_run {q : Code} (hq : isQuote q = true) {run : Text} (h : run.all isDigitOrBrace = true) (t : Text) :
    skipString q (run ++ t) = skipString q t := by
  induction run with
  | nil => rfl
  | cons c run ih =>
    rw [List.all_cons, Bool.and_eq_true] at h
    obtain ⟨hback, hfeed, -, hquote⟩ := digitOrBrace_inert h.1
    rw [List.cons_append, skipString_raw hback (quote_ne hq hquote).symm (.inr hfeed), ih h.2]

/-! ## Continued lines -/

/-- A backslash that no other escapes stands before a carriage return and a line feed. -/
def isContinued : Text → Bool
  | [] => false
  | c :: r =>
    if c == '\\' then
      match r with
      | [] => false
      | d :: s => (d == '\r' && Text.headIs '\n' s) || isContinued s
    else isContinued r

theorem isContinued_raw {c : Code} (hc : c ≠ '\\') (t : Text) : isContinued (c :: t) = isContinued t := by
  rw [isContinued.eq_def]
  simp only [beq_eq_false_iff_ne.2 hc, Bool.false_eq_true, if_false]

theorem isContinued_escape {d : Code} {t : Text} (h : ¬ (d = '\r' ∧ Text.headIs '\n' t = true)) :
    isContinued (('\\' : Code) :: d :: t) = isContinued t := by
  have hd : (d == '\r' && Text.headIs '\n' t) = false := by
    refine Bool.eq_false_iff.2 fun e => h ?_
    rwa [Bool.and_eq_true, beq_iff_eq] at e
  rw [isContinued.eq_def]
  simp only [beq_self_eq_true, if_true, hd, Bool.false_or]

theorem isContinued_run {run : Text} (h : run.all isDigitOrBrace = true) (t : Text) :
    isContinued (run ++ t) = isContinued t := by
  induction run with
  | nil => rfl
  | cons c run ih =>
    rw [List.all_cons, Bool.and_eq_true] at h
    rw [List.cons_append, isContinued_raw (digitOrBrace_inert h.1).1, ih h.2]

/-! ## Reading and skipping -/

/-- Where skipping stops in a text that begins with the rest of a string, its body up to
the quote `q` and what follows. -/
structure Skipped (q : Code) (body rest : Text) : Prop where
  whole : q = '`' ∨ isContinued body = false → skipString q (body ++ q :: rest) = rest
  inside : q ≠ '`' → isContinued body = true →
    ∃ s, skipString q (body ++ q :: rest) = ('\n' : Code) :: s ∧ rest.length < s.length

namespace Skipped

variable {q c : Code} {body rest : Text}

theorem close (hq : isQuote q = true) : Skipped q [] rest where
  whole _ := skipString_close (ne_backslash hq) rest
  inside _ h := by cases h

theorem step (h : Skipped q body rest) (front : Text)
    (hskip : skipString q (front ++ (body ++ q :: rest)) = skipString q (body ++ q :: rest))
    (hcontinued : isContinued (front ++ body) = isContinued body) : Skipped q (front ++ body) rest where
  whole hw := by
    rw [List.append_assoc, hskip]
    exact h.whole (by rwa [hcontinued] at hw)
  inside hq hi := by
    rw [List.append_assoc, hskip]
    exact h.inside hq (by rwa [hcontinued] at hi)

theorem raw (h : Skipped q body rest) (hc : c ≠ '\\') (hq : c ≠ q) (hn : q = '`' ∨ c ≠ '\n') :
    Skipped q (c :: body) rest :=
  h.step [c] (skipString_raw hc hq hn _) (isContinued_raw hc body)

theorem escaped (h : Skipped q body rest) (hq : isQuote q = true) {run : Text}
    (hrun : run.all isDigitOrBrace = true)
    (hc : ¬ (c = '\r' ∧ Text.headIs '\n' (run ++ (body ++ q :: rest)) = true)) :
    Skipped q (('\\' : Code) :: c :: (run ++ body)) rest := by
  have hc' : ¬ (c = '\r' ∧ Text.headIs '\n' (run ++ body) = true) := by
    rwa [← List.append_assoc, headIs_append (quote_ne hq (by decide))] at hc
  refine h.step (('\\' : Code) :: c :: run) ?_ ?_
  · rw [List.cons_append, List.cons_append, skipString_escape, skipString_run hq hrun]
  · rw [List.cons_append, List.cons_append, isContinued_escape hc', isContinued_run hrun]

/-- Reading goes on behind the line feed. Skipping does so in backticks only. -/
theorem continued (h : Skipped q body rest) (hq : isQuote q = true) :
    Skipped q (('\\' : Code) :: ('\r' : Code) :: ('\n' : Code) :: body) rest where
  whole hw := by
    obtain rfl := hw.resolve_right (by rw [isContinued.eq_def]; exact Bool.noConfusion)
    rw [List.cons_append, List.cons_append, List.cons_append, skipString_escape,
      skipString_raw (by decide) (by decide) (.inl rfl)]
    exact h.whole (.inl rfl)
  inside hback _ := by
    refine ⟨body ++ q :: rest, ?_, by simp; omega⟩
    rw [List.cons_append, List.cons_append, List.cons_append, skipString_escape, skipString_feed hq hback]

end Skipped

/-- A string that is read has a body and its closing quote. -/
theorem readBody_skipped {q : Code} (hq : isQuote q = true) {giveUp : Reading} (hg : giveUp.value = none)
    {whole acc t rest v : Text} {budget : Nat} (h : readBody q giveUp whole budget acc t = ⟨some v, rest⟩) :
    ∃ body, t = body ++ q :: rest ∧ Skipped q body rest := by
  have hgive : giveUp ≠ ⟨some v, rest⟩ := by
    rintro rfl
    cases hg
  fun_induction readBody q giveUp whole budget acc t with
  | case1 | case2 => exact absurd h hgive
  | case3 acc c r budget hc =>
    obtain rfl := beq_iff_eq.1 hc
    cases h
    exact ⟨[], rfl, .close hq⟩
  | case4 acc c r budget _ hc d n hescape ih =>
    obtain rfl := beq_iff_eq.1 hc
    obtain ⟨body, hbody, hskip⟩ := ih h
    have hn : (escape r).2 = n := by rw [hescape]
    rcases r with _ | ⟨e, s⟩
    · simp at hbody
    by_cases hreturn : e = '\r' ∧ Text.headIs '\n' s = true
    · obtain ⟨rfl, hfeed⟩ := hreturn
      obtain ⟨u, rfl⟩ := Text.headIs_cons hfeed
      have htwo : (escape (('\r' : Code) :: ('\n' : Code) :: u)).2 = 2 := rfl
      rw [← hn, htwo] at hbody
      obtain rfl : u = body ++ q :: rest := hbody
      exact ⟨_, rfl, hskip.continued hq⟩
    · obtain ⟨run, u, rfl, hdrop, hrun⟩ := escape_run hreturn
      rw [← hn, hdrop] at hbody
      subst hbody
      refine ⟨('\\' : Code) :: e :: (run ++ body), by simp, hskip.escaped hq hrun hreturn⟩
  | case5 | case6 => cases h
  | case7 acc c r budget hcq hc hcut _ ih =>
    obtain ⟨body, rfl, hskip⟩ := ih h
    refine ⟨c :: body, rfl, hskip.raw ?_ ?_ ?_⟩
    · simpa using hc
    · simpa using hcq
    · have hfeed : c = '\n' → q = '`' := by simpa using hcut
      exact (Decidable.em (c = '\n')).elim (fun e => .inl (hfeed e)) .inr

/-! ## Positions -/

theorem getElem?_positionOf {t u : Text} {c : Code} {start stop : Nat} (hstop : stop ≤ t.length)
    (h : (c :: u) <:+ t.window start stop) : t[positionOf stop (c :: u)]? = some c := by
  obtain ⟨pre, hpre⟩ := h
  have hlength := congrArg List.length hpre
  simp only [Text.window, List.length_append, List.length_cons, List.length_drop, List.length_take] at hlength
  have hposition : positionOf stop (c :: u) = start + pre.length := by
    rw [positionOf, List.length_cons]
    omega
  rw [hposition]
  exact Text.getElem?_window pre hpre.symm

/-- Where a string is read without a limit, there are its opening quote, its body and its
closing quote. -/
theorem readStringAt_some {t v : Text} {start stop p : Nat} (hstart : start < stop) (hstop : stop ≤ t.length)
    (h : readStringAt t start stop none = some (some v, p)) :
    ∃ q body rest, t.window start stop = q :: (body ++ q :: rest) ∧ isQuote q = true ∧ p = positionOf stop rest ∧
      Skipped q body rest := by
  obtain ⟨q, w, hw⟩ : ∃ q w, t.window start stop = q :: w := by
    refine List.exists_cons_of_length_pos ?_
    simp only [Text.window, List.length_drop, List.length_take]
    omega
  have hdrop : t.drop start = q :: (t.drop (start + 1)) := by
    have hq : t[start]? = some q := Text.getElem?_window [] hw
    obtain ⟨hlt, rfl⟩ := List.getElem?_eq_some_iff.1 hq
    exact List.drop_eq_getElem_cons hlt
  by_cases hq : isQuote q = true
  · simp only [readStringAt, hdrop, hq, Bool.not_true, Bool.false_eq_true, if_false, if_neg (Nat.not_le.2 hstart), hw,
      readString, Option.some.injEq, Prod.mk.injEq] at h
    obtain ⟨hvalue, rfl⟩ := h
    generalize hread : readBody q ⟨none, []⟩ w w.length [] w = reading at hvalue
    obtain ⟨value, rest⟩ := reading
    obtain rfl : value = some v := hvalue
    obtain ⟨body, rfl, hskip⟩ := readBody_skipped hq rfl hread
    exact ⟨q, body, rest, hw, hq, rfl, hskip⟩
  · simp only [readStringAt, hdrop, Bool.eq_false_iff.2 hq, Bool.not_false, if_true, Option.some.injEq,
      Prod.mk.injEq] at h
    cases h.1

/-- Where a string can be read, skipping it stops at the same place, unless a line is
continued across a carriage return and its line feed: then it stops before, at a line feed,
except in backticks. -/
theorem skipStringAt_read {t v : Text} {start stop p : Nat} (hstart : start < stop) (hstop : stop ≤ t.length)
    (h : readStringAt t start stop none = some (some v, p)) :
    (skipStringAt t start stop = p ↔
        t[start]? = some ('`' : Code) ∨ isContinued (t.window (start + 1) (p - 1)) = false) ∧
      (skipStringAt t start stop ≠ p →
        skipStringAt t start stop < p ∧ t[skipStringAt t start stop]? = some ('\n' : Code)) := by
  obtain ⟨q, body, rest, hw, hq, rfl, hskip⟩ := readStringAt_some hstart hstop h
  have hlength : stop - start = body.length + rest.length + 2 := by
    have := congrArg List.length hw
    simp [Text.window] at this
    omega
  have hquote : t[start]? = some q := Text.getElem?_window [] hw
  have hbody : t.window (start + 1) (positionOf stop rest - 1) = body := by
    have hend : positionOf stop rest - 1 = start + 1 + body.length := by
      rw [positionOf]
      omega
    rw [hend]
    exact Text.window_inside hw
  have hat : skipStringAt t start stop = positionOf stop (skipString q (body ++ q :: rest)) := by
    rw [skipStringAt, hw]
  rw [hquote, hbody, hat, Option.some.injEq]
  by_cases hagree : q = '`' ∨ isContinued body = false
  · rw [hskip.whole hagree]
    exact ⟨iff_of_true rfl hagree, fun hne => absurd rfl hne⟩
  · have hback : q ≠ '`' := fun e => hagree (.inl e)
    have hcontinued : isContinued body = true := by
      cases hbool : isContinued body with
      | true => rfl
      | false => exact absurd (.inr hbool) hagree
    obtain ⟨s, hs, hlt⟩ := hskip.inside hback hcontinued
    have hsuffix : (('\n' : Code) :: s) <:+ t.window start stop := by
      rw [← hs, hw]
      exact (skipString_suffix q _).trans (List.suffix_cons q _)
    have hle := hsuffix.length_le
    rw [hw] at hle
    have hbefore : positionOf stop (('\n' : Code) :: s) < positionOf stop rest := by
      simp only [positionOf, List.length_cons, List.length_append] at hle ⊢
      omega
    rw [hs]
    exact ⟨iff_of_false (Nat.ne_of_lt hbefore) hagree, fun _ => ⟨hbefore, getElem?_positionOf hstop hsuffix⟩⟩

theorem skipStringAt_read_sample :
    2 < 16 ∧ 16 ≤ (Text.ofString "a='\\u0027\\'\\\n',b'").length ∧
      readStringAt "a='\\u0027\\'\\\n',b'" 2 16 none = some (some ("''" : Text), 14) ∧
      skipStringAt "a='\\u0027\\'\\\n',b'" 2 16 = 14 := by
  have hread : readStringAt "a='\\u0027\\'\\\n',b'" 2 16 none = some (some ("''" : Text), 14) := by decide +kernel
  have hlength : 16 ≤ (Text.ofString "a='\\u0027\\'\\\n',b'").length := by decide +kernel
  obtain ⟨hiff, -⟩ := skipStringAt_read (by decide) hlength hread
  exact ⟨by decide, hlength, hread, hiff.2 (.inr (by decide +kernel))⟩

/-- A line continued across a carriage return and its line feed: the string is read, but
skipping it stops at the line feed, and the brace behind it is not found. -/
theorem skipStringAt_read_differs :
    readStringAt "\x7b'a\\\r\nb'\x7d" 1 9 none = some (some ("ab" : Text), 8) ∧
      skipStringAt "\x7b'a\\\r\nb'\x7d" 1 9 = 5 ∧
      closingBraceAt "\x7b'a\\\r\nb'\x7d" 0 9 = none := by
  decide +kernel

end MessageCatalog.Literal
