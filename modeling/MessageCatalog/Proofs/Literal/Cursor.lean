/-
  MessageCatalog.Proofs.Literal.Cursor — each cursor, on the piece it is meant for.

  Whatever follows: trivia is skipped as a whole, a string is skipped, read and taken for
  a name up to the same quote, and a sum is read as the text it denotes.
-/

import MessageCatalog.Proofs.Literal.Layout

namespace MessageCatalog.Literal

open Source

/-! ## Trivia -/

theorem afterLine_append {body : Text} (h : ('\n' : Code) ∉ body) (t : Text) :
    afterLine (body ++ ('\n' : Code) :: t) = t := by
  induction body with
  | nil => rfl
  | cons c r ih =>
    obtain ⟨hc, hr⟩ := List.ne_and_not_mem_of_not_mem_cons h
    rw [List.cons_append, afterLine, if_neg (by simpa using Ne.symm hc), ih hr]

theorem afterBlock_append {body : Text} (h : Text.contains [('*' : Code), ('/' : Code)] body = false) (t : Text) :
    afterBlock (body ++ ('*' : Code) :: ('/' : Code) :: t) = t := by
  induction body with
  | nil => rfl
  | cons c r ih =>
    simp only [Text.contains, Bool.or_eq_false_iff] at h
    rcases r with _ | ⟨d, s⟩
    · simp [afterBlock]
    · have hc : ¬ ((c == '*' && d == '/') = true) := by
        intro e
        simp only [Bool.and_eq_true, beq_iff_eq] at e
        simp [List.isPrefixOf, e.1, e.2] at h
      have := ih h.2
      rw [List.cons_append] at this
      rw [List.cons_append, List.cons_append, afterBlock, if_neg hc, this]

theorem not_opensComment {c : Code} (hs : c ≠ '/') (r : Text) : ¬ opensComment c r = true := by
  rw [opensComment, beq_eq_false_iff_ne.2 hs]
  simp

theorem skipTrivia_cons {c : Code} (hb : isBlank c = false) (hs : c ≠ '/') (r : Text) :
    skipTrivia (c :: r) = c :: r := by
  rw [skipTrivia, if_neg (by simp [hb]), if_neg (not_opensComment hs r)]

@[simp] theorem skipTrivia_nil : skipTrivia [] = [] := by rw [skipTrivia]

theorem skipTrivia_trivium (x : Trivium) (t : Text) : skipTrivia (x.print ++ t) = skipTrivia t := by
  cases x with
  | blank c h =>
    simp only [Trivium.print, List.cons_append, List.nil_append]
    rw [skipTrivia, if_pos h]
  | line body h =>
    rw [Trivium.print, List.cons_append, List.cons_append, List.append_assoc, skipTrivia, if_neg (by decide),
      if_pos (show opensComment _ (_ :: _) = true from rfl), if_pos (show Text.headIs _ (_ :: _) = true from rfl)]
    exact congrArg skipTrivia (afterLine_append h t)
  | block body h =>
    rw [Trivium.print, List.cons_append, List.cons_append, List.append_assoc, skipTrivia, if_neg (by decide),
      if_pos (show opensComment _ (_ :: _) = true from rfl),
      if_neg (show ¬ Text.headIs ('/' : Code) (('*' : Code) :: _) = true from Bool.noConfusion)]
    exact congrArg skipTrivia (afterBlock_append h t)

@[simp] theorem skipTrivia_gap (g : Gap) (t : Text) : skipTrivia (g.print ++ t) = skipTrivia t := by
  induction g with
  | nil => rfl
  | cons x g ih =>
    rw [Gap.print, List.flatMap_cons, List.append_assoc, skipTrivia_trivium]
    exact ih

@[simp] theorem skipTrivia_gap_nil (g : Gap) : skipTrivia g.print = [] := by
  simpa using skipTrivia_gap g []

/-! ## Strings -/

theorem ne_backslash {q : Code} (h : isQuote q = true) : q ≠ '\\' := by
  rintro rfl
  exact absurd h (by decide)

theorem skipString_close {q : Code} (hq : q ≠ '\\') (t : Text) : skipString q (q :: t) = t := by
  rw [skipString.eq_def]
  simp only
  rw [if_neg (by simpa using hq), if_pos (by simp)]

theorem skipString_escape (q d : Code) (t : Text) :
    skipString q (('\\' : Code) :: d :: t) = skipString q t := by
  rw [skipString.eq_def]
  simp

theorem skipString_raw {q c : Code} (hc : c ≠ '\\') (hq : c ≠ q) (hn : q = '`' ∨ c ≠ '\n') (t : Text) :
    skipString q (c :: t) = skipString q t := by
  rw [skipString.eq_def]
  have hcut : ¬ (c == '\n' && q != '`') = true := by
    intro e
    simp_all
  simp only
  rw [if_neg (by simpa using hc), if_neg (by simpa using hq), if_neg hcut]

theorem skipString_plain {q : Code} (hq : isQuote q = true) {body : Text} (h : isPlain q body = true) (t : Text) :
    skipString q (body ++ q :: t) = t := by
  fun_induction isPlain q body with
  | case1 => exact skipString_close (ne_backslash hq) t
  | case2 => cases h
  | case3 c hc d s ih =>
    obtain rfl := beq_iff_eq.1 hc
    simp only [Bool.and_eq_true] at h
    rw [List.cons_append, List.cons_append, skipString_escape, ih h.2]
  | case4 c r hc ih =>
    simp only [Bool.and_eq_true, Bool.or_eq_true, bne_iff_ne, beq_iff_eq] at h hc
    obtain ⟨⟨⟨hcq, hn⟩, -⟩, hr⟩ := h
    rw [List.cons_append, skipString_raw hc hcq hn, ih hr]

/-! ## Escapes -/

/-- A quote ends every window in which an escape looks for digits. -/
theorem not_isHexDigit {q : Code} (h : isQuote q = true) : Text.isHexDigit q = false := by
  simp only [isQuote, isNameQuote, Bool.or_eq_true, beq_iff_eq] at h
  rcases h with (rfl | rfl) | rfl <;> rfl

theorem fixedHex_append {q : Code} (hq : isQuote q = true) (n : Nat) (t rest : Text) :
    fixedHex n (t ++ q :: rest) = fixedHex n t := by
  by_cases hn : n ≤ t.length
  · simp only [fixedHex, List.take_append_of_le_length hn]
  · obtain ⟨k, hk⟩ : ∃ k, n - t.length = k + 1 := ⟨n - t.length - 1, by omega⟩
    have hlong : (t ++ q :: rest).take n = t ++ q :: rest.take k := by
      rw [List.take_append, List.take_of_length_le (by omega), hk, List.take_succ_cons]
    have hshort : (t.take n).length ≠ n := by simp; omega
    simp only [fixedHex, hlong, hshort, decide_false, Bool.false_and]
    simp [not_isHexDigit hq]

theorem bracedHex_append {q : Code} (hq : isQuote q = true) (t rest : Text) :
    bracedHex (t ++ q :: rest) = bracedHex t := by
  by_cases hn : 9 ≤ t.length
  · simp only [bracedHex, List.take_append_of_le_length hn]
  · obtain ⟨k, hk⟩ : ∃ k, 9 - t.length = k + 1 := ⟨9 - t.length - 1, by omega⟩
    have hlong : (t ++ q :: rest).take 9 = t ++ q :: rest.take k := by
      rw [List.take_append, List.take_of_length_le (by omega), hk, List.take_succ_cons]
    have hshort : t.take 9 = t := List.take_of_length_le (by omega)
    have hb : (fun (c : Code) => c != '}') q = true := by
      rw [bne_iff_ne]
      rintro rfl
      exact absurd hq (by decide)
    simp only [bracedHex, hlong, hshort, List.takeWhile_append]
    generalize (fun (c : Code) => c != '}') = p at hb
    have hle : (t.takeWhile p).length ≤ t.length := (List.takeWhile_sublist p).length_le
    split
    · -- no closing brace in `t`: with the quote, the digits are none
      rename_i hall
      have hdigits : (t ++ (q :: rest.take k).takeWhile p).all Text.isHexDigit = false :=
        List.all_eq_false.2 ⟨q, by simp [hb], by simp [not_isHexDigit hq]⟩
      simp [hdigits, hall]
    · rename_i hsome
      have hlt : (t.takeWhile p).length < t.length := Nat.lt_of_le_of_ne hle hsome
      have hlt' : (t.takeWhile p).length < (t ++ q :: rest.take k).length := by simp; omega
      simp only [hlt, hlt']

theorem headIs_append {c q : Code} (h : q ≠ c) (t rest : Text) :
    Text.headIs c (t ++ q :: rest) = Text.headIs c t := by
  cases t <;> simp [Text.headIs, h]

theorem isPlain_raw {q c : Code} (hc : c ≠ '\\') {t : Text} (h : isPlain q (c :: t) = true) :
    c ≠ q ∧ (q = '`' ∨ c ≠ '\n') ∧ ¬ (q = '`' ∧ c = '$' ∧ Text.headIs '{' t = true) ∧ isPlain q t = true := by
  rw [isPlain.eq_def] at h
  simp only [beq_eq_false_iff_ne.2 hc, Bool.false_eq_true, if_false, Bool.and_eq_true, Bool.or_eq_true, bne_iff_ne,
    beq_iff_eq] at h
  obtain ⟨⟨⟨hq, hn⟩, hs⟩, ht⟩ := h
  refine ⟨hq, hn, fun ⟨h₁, h₂, h₃⟩ => ?_, ht⟩
  rw [h₁, h₂, h₃] at hs
  exact absurd hs (by decide)

/-- A code point that ends nothing and starts nothing. -/
theorem isPlain_cons {q c : Code} (hback : c ≠ '\\') (hquote : c ≠ q) (hfeed : c ≠ '\n') (hdollar : q = '`' → c ≠ '$')
    (t : Text) : isPlain q (c :: t) = isPlain q t := by
  have hopen : (q == '`' && c == '$') = false := by
    rw [Bool.and_eq_false_imp, beq_iff_eq, beq_eq_false_iff_ne]
    exact hdollar
  rw [isPlain.eq_def]
  simp only [beq_eq_false_iff_ne.2 hback, bne_iff_ne.2 hquote, bne_iff_ne.2 hfeed, hopen, Bool.false_eq_true, if_false,
    Bool.or_true, Bool.false_and, Bool.not_false, Bool.true_and]

theorem isPlain_drop_hex {q : Code} {n : Nat} {t : Text} (hd : (t.take n).all Text.isHexDigit = true)
    (h : isPlain q t = true) : isPlain q (t.drop n) = true := by
  induction n generalizing t with
  | zero => exact h
  | succ n ih =>
    rcases t with _ | ⟨c, r⟩
    · exact h
    · simp only [List.take_succ_cons, List.all_cons, Bool.and_eq_true] at hd
      have hc : c ≠ '\\' := by
        rintro rfl
        exact absurd hd.1 (by decide)
      exact ih hd.2 (isPlain_raw hc h).2.2.2

theorem fixedHex_some {n : Nat} {t : Text} {d : Code} (h : fixedHex n t = some d) :
    n ≤ t.length ∧ (t.take n).all Text.isHexDigit = true := by
  simp only [fixedHex] at h
  split at h
  · rename_i hc
    simp only [Bool.and_eq_true, decide_eq_true_eq, List.length_take] at hc
    exact ⟨by omega, hc.2⟩
  · cases h

theorem bracedHex_some {t : Text} {d : Code} {n : Nat} (h : bracedHex t = some (d, n)) :
    (t.take n).all Text.isHexDigit = true ∧ ∃ s, t.drop n = ('}' : Code) :: s := by
  simp only [bracedHex] at h
  split at h
  · rename_i hc
    simp only [Bool.and_eq_true, decide_eq_true_eq, Bool.not_eq_true'] at hc
    obtain ⟨⟨⟨hlt, -⟩, hhex⟩, -⟩ := hc
    simp only [Option.some.injEq, Prod.mk.injEq] at h
    obtain ⟨-, rfl⟩ := h
    generalize hp : (fun (c : Code) => c != '}') = p at hlt hhex ⊢
    rcases hd : (t.take 9).dropWhile p with _ | ⟨x, s⟩
    · have := (t.take 9).takeWhile_append_dropWhile (p := p)
      rw [hd, List.append_nil] at this
      rw [this] at hlt
      omega
    · have hx : x = '}' := by
        have := List.head?_dropWhile_not p (t.take 9)
        rw [hd] at this
        simpa [← hp] using this
      have ht : t = (t.take 9).takeWhile p ++ x :: (s ++ t.drop 9) := by
        rw [← List.cons_append, ← hd, ← List.append_assoc, List.takeWhile_append_dropWhile, List.take_append_drop]
      generalize (t.take 9).takeWhile p = ds at ht hhex ⊢
      generalize s ++ t.drop 9 = rest at ht
      subst ht hx
      exact ⟨by simpa using hhex, rest, by simp⟩
  · cases h

/-- The code point after a backslash is not before a line feed if it is a carriage return. -/
theorem isPlain_escape {q c : Code} {t : Text} (h : isPlain q (('\\' : Code) :: c :: t) = true) :
    ¬ (c = '\r' ∧ Text.headIs '\n' t = true) ∧ isPlain q t = true := by
  rw [isPlain.eq_def] at h
  simp only [beq_self_eq_true, if_true, Bool.and_eq_true] at h
  refine ⟨fun ⟨h₁, h₂⟩ => ?_, h.2⟩
  rw [h₁, h₂] at h
  exact absurd h.1 (by decide)

theorem isPlain_not_lone {q : Code} : ¬ isPlain q [('\\' : Code)] = true := by
  rw [isPlain.eq_def]
  simp

theorem quote_ne {q c : Code} (hq : isQuote q = true) (hc : isQuote c = false) : q ≠ c := by
  rintro rfl
  rw [hq] at hc
  cases hc

/-- An escape does not look past the quote that closes its string. -/
theorem escape_append {q : Code} (hq : isQuote q = true) {t : Text} (ht : t ≠ []) (rest : Text) :
    escape (t ++ q :: rest) = escape t := by
  rcases t with _ | ⟨c, r⟩
  · exact absurd rfl ht
  · rcases r with _ | ⟨d, s⟩
    · -- the quote is neither a line feed nor a brace nor a digit
      have hf := fun n => fixedHex_append hq n [] rest
      have h₁ : Text.headIs '\n' (q :: rest) = false := by simpa [Text.headIs] using quote_ne hq (by decide)
      have h₂ : Text.headIs '{' (q :: rest) = false := by simpa [Text.headIs] using quote_ne hq (by decide)
      simp only [List.nil_append] at hf
      simp only [List.cons_append, List.nil_append, escape, h₁, h₂, hf]
      rfl
    · have hf := fun n => fixedHex_append hq n (d :: s) rest
      have hb := bracedHex_append hq s rest
      simp only [List.cons_append] at hf
      simp only [List.cons_append, escape, hf, List.tail_cons, hb]
      rfl

/-- What an escape takes after its letter: a line feed, hexadecimal digits, of which there
may be none, or digits in braces. -/
inductive Taken (c : Code) (r : Text) : Nat → Prop
  | lineEnd (hc : c = '\r') (hr : Text.headIs '\n' r = true) : Taken c r 2
  | digits (k : Nat) (hk : k ≤ r.length) (hd : (r.take k).all Text.isHexDigit = true) : Taken c r (k + 1)
  | braced (s u : Text) (k : Nat) (hr : r = ('{' : Code) :: s) (hd : (s.take k).all Text.isHexDigit = true)
      (hu : s.drop k = ('}' : Code) :: u) : Taken c r (k + 3)

theorem taken_one (c : Code) (r : Text) : Taken c r 1 := .digits 0 (Nat.zero_le _) (by simp)

theorem taken_fixedHex {n : Nat} {c d : Code} {r : Text} (h : fixedHex n r = some d) : Taken c r (n + 1) :=
  .digits n (fixedHex_some h).1 (fixedHex_some h).2

theorem taken_bracedHex {c d : Code} {r : Text} {n : Nat} (hr : Text.headIs '{' r = true)
    (h : bracedHex r.tail = some (d, n)) : Taken c r (n + 3) := by
  rcases r with _ | ⟨b, s⟩
  · cases hr
  · obtain rfl : b = '{' := by simpa [Text.headIs] using hr
    obtain ⟨hd, u, hu⟩ := bracedHex_some h
    exact .braced s u n rfl hd hu

theorem escape_taken (c : Code) (r : Text) : Taken c r (escape (c :: r)).2 := by
  simp only [escape]
  split
  · exact taken_one c r
  split
  · rename_i hc
    split
    · exact .lineEnd (beq_iff_eq.1 hc) ‹_›
    · exact taken_one c r
  split
  · exact taken_one c r
  split
  · split
    · exact taken_fixedHex ‹_›
    · exact taken_one c r
  split
  · split
    · rename_i hr
      split
      · exact taken_bracedHex hr ‹_›
      · exact taken_one c r
    · split
      · exact taken_fixedHex ‹_›
      · exact taken_one c r
  · exact taken_one c r

theorem escape_le (t : Text) : (escape t).2 ≤ t.length := by
  cases t with
  | nil => exact Nat.le_refl 0
  | cons c r =>
    have ht := escape_taken c r
    generalize (escape (c :: r)).2 = n at ht ⊢
    rw [List.length_cons]
    cases ht with
    | lineEnd _ hr =>
      cases r with
      | nil => cases hr
      | cons d s => rw [List.length_cons]; omega
    | digits k hk => omega
    | braced s u k hr _ hu =>
      have := congrArg List.length hu
      rw [List.length_drop, List.length_cons] at this
      rw [hr, List.length_cons]
      omega

theorem isPlain_after_escape {q : Code} {t : Text} (h : isPlain q (('\\' : Code) :: t) = true) :
    isPlain q (t.drop (escape t).2) = true := by
  rcases t with _ | ⟨c, r⟩
  · exact absurd h isPlain_not_lone
  obtain ⟨hcr, hp⟩ := isPlain_escape h
  have ht := escape_taken c r
  generalize (escape (c :: r)).2 = n at ht ⊢
  cases ht with
  | lineEnd hc hr => exact absurd ⟨hc, hr⟩ hcr
  | digits k hk hd => simpa using isPlain_drop_hex hd hp
  | braced s u k hr hd hu =>
    subst hr
    have hs := isPlain_drop_hex hd (isPlain_raw (by decide) hp).2.2.2
    rw [hu] at hs
    have hdrop : (c :: ('{' : Code) :: s).drop (k + 3) = u := by
      simp [← List.drop_drop, hu]
    rw [hdrop]
    exact (isPlain_raw (by decide) hs).2.2.2

/-! ## Reading strings -/

theorem readBody_close {q : Code} (giveUp : Reading) (body : Text) (budget : Nat) (acc t : Text) :
    readBody q giveUp body (budget + 1) acc (q :: t) = ⟨some acc.reverse, t⟩ := by
  rw [readBody, if_pos (by simp)]

theorem readBody_escape {q : Code} (hq : q ≠ '\\') (giveUp : Reading) (body : Text) (budget : Nat) (acc t : Text) :
    readBody q giveUp body (budget + 1) acc (('\\' : Code) :: t) =
      readBody q giveUp body (budget - (escape t).2) ((escape t).1.reverse ++ acc) (t.drop (escape t).2) := by
  rw [readBody, if_neg (by simpa using Ne.symm hq), if_pos (by simp)]

theorem readBody_raw {q c : Code} (giveUp : Reading) (body : Text) (budget : Nat) (acc : Text) {t : Text}
    (hc : c ≠ '\\') (hq : c ≠ q) (hn : q = '`' ∨ c ≠ '\n')
    (hs : ¬ (q = '`' ∧ c = '$' ∧ Text.headIs '{' t = true)) :
    readBody q giveUp body (budget + 1) acc (c :: t) = readBody q giveUp body budget (c :: acc) t := by
  have hcut : ¬ (c == '\n' && q != '`') = true := by
    intro e
    simp_all
  have hsub : ¬ (q == '`' && c == '$' && Text.headIs '{' t) = true := by
    simpa only [Bool.and_eq_true, beq_iff_eq, and_assoc] using hs
  rw [readBody, if_neg (by simpa using hq), if_neg (by simpa using hc), if_neg hcut, if_neg hsub]

/-- A string is read up to the quote that skipping it stops at. -/
theorem readBody_plain {q : Code} (hq : isQuote q = true) (giveUp : Reading) (whole : Text) {body : Text}
    (h : isPlain q body = true) {budget : Nat} (hb : body.length < budget) (acc t : Text) :
    readBody q giveUp whole budget acc (body ++ q :: t) = ⟨some (acc.reverse ++ decode body), t⟩ := by
  fun_induction decode body generalizing budget acc with
  | case1 =>
    obtain ⟨b, rfl⟩ : ∃ b, budget = b + 1 := ⟨budget - 1, by simp at hb; omega⟩
    simpa using readBody_close giveUp whole b acc t
  | case2 c r hc ih =>
    obtain rfl := beq_iff_eq.1 hc
    obtain ⟨b, rfl⟩ : ∃ b, budget = b + 1 := ⟨budget - 1, by omega⟩
    have hr : r ≠ [] := by
      rintro rfl
      exact isPlain_not_lone h
    have hle := escape_le r
    have hp := isPlain_after_escape h
    rw [List.cons_append, readBody_escape (ne_backslash hq), escape_append hq hr,
      List.drop_append_of_le_length hle, ih hp (by simp at hb ⊢; omega)]
    simp
  | case3 c r hc ih =>
    have hc : c ≠ '\\' := by simpa using hc
    obtain ⟨hcq, hn, hs, hp⟩ := isPlain_raw hc h
    obtain ⟨b, rfl⟩ : ∃ b, budget = b + 1 := ⟨budget - 1, by omega⟩
    have hs' : ¬ (q = '`' ∧ c = '$' ∧ Text.headIs '{' (r ++ q :: t) = true) := by
      rwa [headIs_append (quote_ne hq (by decide))]
    rw [List.cons_append, readBody_raw _ _ _ _ hc hcq hn hs', ih hp (by simpa using hb)]
    simp

theorem readString_print {n : Nat} (s : Quoted) (h : s.body.length < n) (t : Text) :
    readString (some n) (s.print ++ t) = ⟨some s.denoted, t⟩ := by
  rw [Quoted.print, List.cons_append, List.append_assoc]
  simp only [readString, s.isQuote, Bool.not_true, Bool.false_eq_true, if_false, List.cons_append, List.nil_append]
  rw [readBody_plain s.isQuote _ _ s.isPlain h]
  rfl

theorem isSpace_quote {q : Code} (h : isQuote q = true) : Text.isSpace q = false := by
  simp only [isQuote, isNameQuote, Bool.or_eq_true, beq_iff_eq] at h
  rcases h with (rfl | rfl) | rfl <;> rfl

theorem trim_print (s : Quoted) : s.print.trim = s.print := by
  have h := isSpace_quote s.isQuote
  simp [Text.trim, Text.trimBy, Quoted.print, h]

theorem unquote_print (s : Quoted) : unquote s.print = some s.denoted := by
  have h := readBody_plain s.isQuote ⟨none, []⟩ (s.body ++ [s.quote]) s.isPlain
    (show s.body.length < (s.body ++ [s.quote]).length by simp) [] []
  simp only [unquote, trim_print]
  simp only [Quoted.print, readString, s.isQuote, Bool.not_true, Bool.false_eq_true, if_false, h]
  rfl

/-! ## Names -/

theorem upTo_append (t rest : Text) : Text.upTo (t ++ rest) rest = t := by simp [Text.upTo]

theorem nameEnd_plain {q : Code} (hq : isNameQuote q = true) {body : Text} (h : isPlain q body = true)
    {budget : Nat} (hb : body.length ≤ budget) (t : Text) : nameEnd q budget (body ++ q :: t) = q :: t := by
  -- so a plain body has no line feed, which would end the name
  have hback : q ≠ '`' := by
    rintro rfl
    exact absurd hq (by decide)
  fun_induction isPlain q body generalizing budget with
  | case1 =>
    cases budget with
    | zero => rw [List.nil_append, nameEnd]
    | succ b => rw [List.nil_append, nameEnd, if_pos (by simp)]
  | case2 => cases h
  | case3 c hc d s ih =>
    simp only [Bool.and_eq_true] at h
    obtain ⟨b, rfl⟩ : ∃ b, budget = b + 1 := ⟨budget - 1, by simp at hb; omega⟩
    have hcq : ¬ (c == q || c == '\n') = true := by
      have := ne_backslash (q := q) (by simp [isQuote, hq])
      obtain rfl := beq_iff_eq.1 hc
      simpa using Ne.symm this
    rw [List.cons_append, List.cons_append, nameEnd, if_neg hcq, if_pos hc, List.tail_cons,
      ih h.2 (by simp at hb; omega)]
  | case4 c r hc ih =>
    simp only [Bool.and_eq_true, Bool.or_eq_true, bne_iff_ne, beq_iff_eq] at h
    obtain ⟨⟨⟨hcq, hn⟩, -⟩, hr⟩ := h
    obtain ⟨b, rfl⟩ : ∃ b, budget = b + 1 := ⟨budget - 1, by simp at hb; omega⟩
    have hcut : ¬ (c == q || c == '\n') = true := by
      simpa [hcq] using hn.resolve_left hback
    rw [List.cons_append, nameEnd, if_neg hcut, if_neg hc, ih hr (by simpa using hb)]

theorem quotedName_print (limits : Limits) (s : Quoted) (hq : isNameQuote s.quote = true)
    (hb : s.body.length ≤ limits.maxKeyLength) (t : Text) :
    quotedName limits s.quote (s.body ++ s.quote :: t) = ⟨some s.denoted, t⟩ := by
  have hu := unquote_print s
  rw [Quoted.print] at hu
  simp only [quotedName, nameEnd_plain hq s.isPlain hb, beq_self_eq_true, if_true, upTo_append, List.cons_append,
    hu, Option.getD_some]

theorem dropWhile_still {t : Text} (ht : t.head?.any Key.continuesSegment = false) :
    t.dropWhile Key.continuesSegment = t := by
  cases t with
  | nil => rfl
  | cons d s => rw [List.dropWhile_cons_of_neg (by simpa using ht)]

/-- An identifier goes on as long as it can, so what follows must not continue it. -/
theorem identifierName_append (limits : Limits) {c : Code} {r t : Text} (hr : r.all Key.continuesSegment = true)
    (hb : (c :: r).length ≤ limits.maxKeyLength) (ht : t.head?.any Key.continuesSegment = false) :
    identifierName limits c (r ++ t) = ⟨some (c :: r), t⟩ := by
  have hr' : ∀ d ∈ r, Key.continuesSegment d = true := List.all_eq_true.1 hr
  have htake : t.takeWhile Key.continuesSegment = [] := by
    cases t with
    | nil => rfl
    | cons d s => rw [List.takeWhile_cons_of_neg (by simpa using ht)]
  have hdrop := dropWhile_still ht
  have hle : (c :: r).length ≤ max 1 limits.maxKeyLength := by omega
  simp only [identifierName, List.takeWhile_append_of_pos hr', List.dropWhile_append_of_pos hr', htake, hdrop,
    List.append_nil, hle, if_true]

theorem startsSegment_solid {c : Code} (h : Key.startsSegment c = true) :
    isNameQuote c = false ∧ isBlank c = false ∧ c ≠ '/' := by
  simp [Key.startsSegment, Text.isLetter, Text.isUpper, Text.isLower] at h
  simp [isNameQuote, isBlank]
  grind

theorem quote_solid {q : Code} (h : isQuote q = true) : isBlank q = false ∧ q ≠ '/' := by
  simp only [isQuote, isNameQuote, Bool.or_eq_true, beq_iff_eq] at h
  rcases h with (rfl | rfl) | rfl <;> decide

theorem blank_not_continues {c : Code} (h : isBlank c = true) : Key.continuesSegment c = false := by
  simp [isBlank] at h
  simp [Key.continuesSegment, Key.startsSegment, Text.isLetter, Text.isUpper, Text.isLower, Text.isDigit]
  grind

theorem head_gap (g : Gap) {c : Code} (hc : g = [] → Key.continuesSegment c = false) (t : Text) :
    (g.print ++ c :: t).head?.any Key.continuesSegment = false := by
  cases g with
  | nil => exact hc rfl
  | cons x g =>
    cases x with
    | blank c h => simpa [Gap.print, Trivium.print] using blank_not_continues h
    | line body _ => rfl
    | block body _ => rfl

/-- A name, a colon and trivia, and then the value. -/
theorem front_head (limits : Limits) (h : Head) (hf : h.fits limits = true) {c : Code} {t : Text}
    (ht : skipTrivia (c :: t) = c :: t) : front limits (h.print ++ c :: t) = .property h.name.denoted c t := by
  obtain ⟨before, name, beforeColon, afterColon⟩ := h
  have hcolon : skipTrivia (beforeColon.print ++ (':' : Code) :: (afterColon.print ++ c :: t))
      = (':' : Code) :: (afterColon.print ++ c :: t) := by
    rw [skipTrivia_gap, skipTrivia_cons (by decide) (by decide)]
  have hvalue : skipTrivia (afterColon.print ++ c :: t) = c :: t := by rw [skipTrivia_gap, ht]
  have hlen : name.written.length ≤ limits.maxKeyLength := by simpa [Head.fits] using hf
  cases name with
  | bare d r hd hr =>
    obtain ⟨hq, hb, hs⟩ := startsSegment_solid hd
    have hstill := head_gap beforeColon (c := ':') (fun _ => rfl) (afterColon.print ++ c :: t)
    have hname := identifierName_append limits hr hlen hstill
    simp only [front, Head.print, Name.print, List.append_assoc, List.cons_append, skipTrivia_gap,
      skipTrivia_cons hb hs, startsName, readName, hd, hq, Bool.or_true, if_true, Bool.false_eq_true, if_false,
      hname, hcolon, hvalue, beq_self_eq_true, Name.denoted]
  | quoted s hq =>
    obtain ⟨hb, hs⟩ := quote_solid s.isQuote
    have hname :=
      quotedName_print limits s hq hlen (beforeColon.print ++ (':' : Code) :: (afterColon.print ++ c :: t))
    simp only [front, Head.print, Name.print, Quoted.print, List.append_assoc, List.cons_append, List.nil_append,
      skipTrivia_gap, skipTrivia_cons hb hs, startsName, readName, hq, Bool.true_or, if_true, hname, hcolon,
      hvalue, beq_self_eq_true, Name.denoted]

/-! ## Sums -/

theorem joinStrings_eq (limits : Limits) (value rest : Text) :
    joinStrings limits value rest =
      match skipTrivia rest with
      | [] => ⟨some value, rest⟩
      | c :: r =>
        if c == '+' then
          match skipTrivia r with
          | [] => ⟨none, rest⟩
          | q :: body =>
            if isQuote q then
              match readString (some limits.maxValueLength) (q :: body) with
              | ⟨some part, next⟩ =>
                if limits.maxValueLength < value.length + part.length then ⟨none, next⟩
                else joinStrings limits (value ++ part) next
              | ⟨none, next⟩ => ⟨none, next⟩
            else ⟨none, rest⟩
        else ⟨some value, rest⟩ := by
  rw [joinStrings.eq_def]
  split
  · rename_i h
    rw [h]
  rename_i c r h
  rw [h]
  by_cases hc : (c == '+') = true
  · simp only [if_pos hc]
    split
    · rename_i h
      rw [h]
    rename_i q body h
    rw [h]
    by_cases hq : isQuote q = true
    · simp only [dif_pos hq, if_pos hq]
      split <;> (rename_i h; rw [h])
    · simp only [dif_neg hq, if_neg hq]
  · simp only [if_neg hc]

/-- What follows a value and does not continue it: trivia, then nothing or a comma. -/
def Ends (t : Text) : Prop := skipTrivia t = [] ∨ ∃ s, skipTrivia t = (',' : Code) :: s

theorem joinStrings_end {limits : Limits} {t : Text} (ht : Ends t) (value : Text) :
    joinStrings limits value t = ⟨some value, t⟩ := by
  rw [joinStrings_eq]
  rcases ht with ht | ⟨s, ht⟩
  · rw [ht]
  · rw [ht]
    rfl

/-- Behind a plus sign stands a string that is added, or the value is none. -/
theorem joinStrings_plus (limits : Limits) (value : Text) {rest r body : Text} {q : Code}
    (hplus : skipTrivia rest = ('+' : Code) :: r) (hoperand : skipTrivia r = q :: body) :
    joinStrings limits value rest =
      if isQuote q then
        match readString (some limits.maxValueLength) (q :: body) with
        | ⟨some part, next⟩ =>
          if limits.maxValueLength < value.length + part.length then ⟨none, next⟩
          else joinStrings limits (value ++ part) next
        | ⟨none, next⟩ => ⟨none, next⟩
      else ⟨none, rest⟩ := by
  rw [joinStrings_eq, hplus]
  simp only [beq_self_eq_true, if_true, hoperand]

theorem joinStrings_add {limits : Limits} (value : Text) (x : Summand)
    (hx : x.string.body.length < limits.maxValueLength)
    (hv : (value ++ x.string.denoted).length ≤ limits.maxValueLength) (t : Text) :
    joinStrings limits value (x.print ++ t) = joinStrings limits (value ++ x.string.denoted) t := by
  have hread := readString_print x.string hx t
  have hplus : skipTrivia (x.print ++ t) = ('+' : Code) :: (x.after.print ++ (x.string.print ++ t)) := by
    rw [Summand.print, List.append_assoc, skipTrivia_gap, List.cons_append, List.append_assoc,
      skipTrivia_cons (by decide) (by decide)]
  have hstring : skipTrivia (x.after.print ++ (x.string.print ++ t)) = x.string.print ++ t := by
    obtain ⟨hb, hs⟩ := quote_solid x.string.isQuote
    rw [skipTrivia_gap, Quoted.print, List.cons_append, skipTrivia_cons hb hs]
  rw [Quoted.print, List.cons_append] at hread hstring
  rw [joinStrings_plus limits value hplus hstring, if_pos x.string.isQuote, hread]
  simp only
  rw [if_neg (by simpa using hv)]

theorem joinStrings_sum {limits : Limits} (value : Text) (more : List Summand)
    (hx : ∀ x ∈ more, x.string.body.length < limits.maxValueLength)
    (hv : (value ++ more.flatMap (·.string.denoted)).length ≤ limits.maxValueLength) {t : Text} (ht : Ends t) :
    joinStrings limits value (more.flatMap Summand.print ++ t) =
      ⟨some (value ++ more.flatMap (·.string.denoted)), t⟩ := by
  induction more generalizing value with
  | nil => simpa using joinStrings_end ht value
  | cons x more ih =>
    simp only [List.flatMap_cons, ← List.append_assoc] at hv ⊢
    have hv' : (value ++ x.string.denoted).length ≤ limits.maxValueLength := by
      rw [List.length_append] at hv
      omega
    rw [List.append_assoc, joinStrings_add value x (hx x (by simp)) hv',
      ih _ (fun y hy => hx y (List.mem_cons_of_mem x hy)) hv]

theorem readValue_print {limits : Limits} {first : Quoted} {more : List Summand}
    (hf : (Leaf.text first more).fits limits = true) {t : Text} (ht : Ends t) :
    readValue limits ((Leaf.text first more).print ++ t) =
      ⟨some (first.denoted ++ more.flatMap (·.string.denoted)), t⟩ := by
  simp only [Leaf.fits, List.all_cons, List.all_map, Bool.and_eq_true, List.all_eq_true, Function.comp_apply,
    decide_eq_true_eq] at hf
  obtain ⟨⟨hfirst, hmore⟩, hsum⟩ := hf
  rw [Leaf.print, List.append_assoc]
  simp only [readValue, readString_print first hfirst]
  exact joinStrings_sum _ more hmore hsum ht

end MessageCatalog.Literal
