/-
  MessageCatalog.Proofs.Literal.Walk.Strings — reading a string by positions.

  An escape at `stop` is where the loop and the cursor part. Its digits may lie behind `stop`,
  so that the loop passes it, and the cursor reads the letter of an escape that is none, and
  digits. Both get to the end then, and neither finds the closing quote (`readBody_hex`).
-/

import MessageCatalog.Proofs.Literal.Strings
import MessageCatalog.Proofs.Literal.Walk.Cursors

namespace MessageCatalog.Literal.Walk

variable {t : Text} {stop : Nat}

/-! ## Reading a string -/

theorem fixedHex_window {n : Nat} {s : Text} {i : Nat} (h : Stands t stop s i) (hn : i + n ≤ stop) :
    fixedHex n (t.drop i) = fixedHex n s := by
  have htake : s.take n = (t.drop i).take n := by
    rw [← h.window, Text.window_eq_take, List.take_take, Nat.min_eq_left (by omega)]
  unfold fixedHex
  rw [htake]

/-- Digits that reach across `stop` are all that is left in front of it. -/
theorem fixedHex_across (hstop : stop ≤ t.length) {n : Nat} {s : Text} {i : Nat} (h : Stands t stop s i)
    (hn : stop < i + n) :
    fixedHex n s = none ∧ ∀ {d : Code}, fixedHex n (t.drop i) = some d → s.all Text.isHexDigit = true := by
  have hlen := h.length hstop
  constructor
  · unfold fixedHex
    rw [if_neg]
    simp
    omega
  · intro d hd
    obtain ⟨-, hall⟩ := fixedHex_some hd
    have hs : s = ((t.drop i).take n).take (stop - i) := by
      rw [← h.window, Text.window_eq_take, List.take_take, Nat.min_eq_left (by omega)]
    rw [List.all_eq_true] at hall ⊢
    intro c hc
    rw [hs] at hc
    exact hall c (List.mem_of_mem_take hc)

theorem bracedHex_stands (hstop : stop ≤ t.length) {s : Text} {i : Nat} (h : Stands t stop s i) :
    bracedHex t stop i = (Literal.bracedHex s).map fun x => (x.1, i + x.2 + 1) := by
  have hlen := h.length hstop
  have hnear : Stands t (min stop (i + 9)) (s.take 9) i := by
    refine ⟨by omega, ?_⟩
    rw [← h.window, Text.window_eq_take, Text.window_eq_take, List.take_take]
    congr 1
    omega
  unfold bracedHex Literal.bracedHex
  rw [find?_code (by omega) _ hnear]
  generalize hds : (s.take 9).takeWhile (· != ('}' : Code)) = ds
  by_cases hclosed : ds.length < (s.take 9).length
  · have hdigits : t.window i (i + ds.length) = ds := by
      have hle := hnear.length (by omega)
      rw [(hnear.take (n := ds.length) (by omega)).window, ← hds]
      exact (List.prefix_iff_eq_take.1 (List.takeWhile_prefix _)).symm
    rw [if_pos hclosed]
    simp only [hdigits, decide_eq_true hclosed, Bool.true_and]
    split <;> rfl
  · rw [if_neg hclosed]
    simp only [decide_eq_false hclosed]
    rfl

/-- What a loop decodes at `i` is `e`, which the cursor decodes; or it passes `stop` by digits, and the
cursor takes the letter alone. `digits` are what is left behind the letter. -/
def Decodes (stop i : Nat) (digits : Text) (e decoded : Text × Nat) : Prop :=
  decoded = (e.1, i + 1 + e.2) ∨ stop < decoded.2 ∧ e.2 = 1 ∧ digits.all Text.isHexDigit = true

theorem hexEscape_decodes (hstop : stop ≤ t.length) (n : Nat) (letter : Code) {s : Text} {i : Nat}
    (h : Stands t stop s (i + 2)) :
    Decodes stop i s (match fixedHex n s with | some d => ([d], n + 1) | none => ([letter], 1))
      (hexEscape t n letter i) := by
  unfold hexEscape
  rcases Nat.lt_or_ge stop (i + 2 + n) with hacross | hwithin
  · obtain ⟨hnone, hall⟩ := fixedHex_across hstop h hacross
    rw [hnone]
    cases hd : fixedHex n (t.drop (i + 2)) with
    | none => exact .inl rfl
    | some d => exact .inr ⟨hacross, rfl, hall hd⟩
  · rw [fixedHex_window h hwithin]
    cases fixedHex n s with
    | none => exact .inl rfl
    | some d =>
      refine .inl (congrArg (Prod.mk [d]) ?_)
      show i + 2 + n = i + 1 + (n + 1)
      omega

theorem escape_decodes (hstop : stop ≤ t.length) {r : Text} {i : Nat} (h : Stands t stop r (i + 1)) :
    ∃ decoded, escape t stop i = some decoded ∧ Decodes stop i (r.drop 1) (Literal.escape r) decoded := by
  cases r with
  | nil =>
    have hend := h.stop_le hstop
    have hle := h.le
    unfold escape
    rw [if_pos hend]
    refine ⟨([], stop), rfl, .inl (congrArg (Prod.mk []) ?_)⟩
    show stop = i + 1 + 0
    omega
  | cons c s =>
    obtain ⟨hlt, -, hs⟩ := h.cons
    have hstart : ¬ stop ≤ i + 1 := by omega
    unfold escape
    rw [if_neg hstart, h.get]
    simp only [Option.bind_eq_bind, Option.bind_some, Literal.escape, List.drop_succ_cons, List.drop_zero]
    cases simpleEscape c with
    | some d => exact ⟨([d], i + 2), rfl, .inl rfl⟩
    | none =>
      simp only
      by_cases hreturn : (c == '\r') = true
      · simp only [if_pos hreturn]
        rw [looksAt_headIs hstop hs, Option.bind_some]
        refine ⟨_, rfl, .inl (congrArg (Prod.mk []) ?_)⟩
        split <;> rfl
      simp only [if_neg hreturn]
      by_cases hend : (c == '\n' || c == 0x2028 || c == 0x2029) = true
      · simp only [if_pos hend]
        exact ⟨([], i + 2), rfl, .inl rfl⟩
      simp only [if_neg hend]
      by_cases hx : (c == 'x') = true
      · simp only [if_pos hx]
        exact ⟨_, rfl, hexEscape_decodes hstop 2 'x' hs⟩
      simp only [if_neg hx]
      by_cases hu : (c == 'u') = true
      · simp only [if_pos hu]
        rw [looksAt_headIs hstop hs, Option.bind_some]
        by_cases hbraced : Text.headIs '{' s = true
        · obtain ⟨u, rfl⟩ := Text.headIs_cons hbraced
          rw [if_pos hbraced, if_pos hbraced, bracedHex_stands hstop hs.cons.2.2, List.tail_cons]
          cases Literal.bracedHex u with
          | none => exact ⟨(['u'], i + 2), rfl, .inl rfl⟩
          | some x =>
            refine ⟨([x.1], i + 3 + x.2 + 1), rfl, .inl (congrArg (Prod.mk [x.1]) ?_)⟩
            show i + 3 + x.2 + 1 = i + 1 + (x.2 + 3)
            omega
        · rw [if_neg hbraced, if_neg hbraced]
          exact ⟨_, rfl, hexEscape_decodes hstop 4 'u' hs⟩
      · simp only [if_neg hu]
        exact ⟨([c], i + 2), rfl, .inl rfl⟩

theorem readBody_hex {q : Code} (hq : isQuote q = true) (giveUp : Reading) (body : Text) (budget : Nat) (acc : Text)
    {s : Text} (h : s.all Text.isHexDigit = true) : Literal.readBody q giveUp body budget acc s = giveUp := by
  induction s generalizing budget acc with
  | nil => rw [Literal.readBody.eq_def]
  | cons c r ih =>
    obtain ⟨hc, hr⟩ := Bool.and_eq_true_iff.1 h
    obtain ⟨hback, hfeed, hdollar, hquote⟩ := digitOrBrace_inert (c := c) (by rw [isDigitOrBrace, hc]; rfl)
    cases budget with
    | zero => rw [Literal.readBody.eq_def]
    | succ budget =>
      rw [readBody_raw giveUp body budget acc hback (quote_ne hq hquote).symm (.inr hfeed) fun hopens =>
        hdollar hopens.2.1]
      exact ih budget (c :: acc) hr

/-- A loop that reads a text, or none, and goes on behind it does what a reader does. -/
structure Reads (t : Text) (stop : Nat) (r : Reading) (read : Option Text × Nat) : Prop where
  value : read.1 = r.value
  rest : Stands t stop r.rest read.2

section

variable {q : Code} {body : Text} {opening limit : Nat}

theorem readBody_end (hstop : stop ≤ t.length) (hbody : Stands t stop (q :: body) opening) (text : Text) {i : Nat}
    (h : limit ≤ i) :
    ∃ read, readBody t q opening limit stop text i = some read ∧
      Reads t stop ⟨none, if limit < stop then Literal.skipString q body else []⟩ read := by
  rw [readBody, dif_neg (by omega)]
  by_cases hlimit : limit < stop
  · obtain ⟨p, hp, -, hrest⟩ := skipString_stands hstop hbody
    rw [if_pos hlimit, if_pos hlimit, hp]
    exact ⟨(none, p), rfl, rfl, hrest⟩
  · rw [if_neg hlimit, if_neg hlimit]
    exact ⟨(none, stop), rfl, rfl, Stands.nil t stop⟩

theorem opensSubstitution_stands (hstop : stop ≤ t.length) {c : Code} {r : Text} {i : Nat}
    (h : Stands t stop (c :: r) i) :
    opensSubstitution t stop i q c = some (q == '`' && c == '$' && Text.headIs '{' r) := by
  unfold opensSubstitution
  rw [looksAt_headIs hstop h.cons.2.2]
  cases q == ('`' : Code) && c == ('$' : Code) <;> rfl

theorem readBody_cons (hstop : stop ≤ t.length) (text : Text) {c : Code} {r : Text} {i : Nat}
    (h : Stands t stop (c :: r) i) (hlimit : i < limit) :
    readBody t q opening limit stop text i =
      if c == q then some (some text, i + 1)
      else if c == '\\' then
        (escape t stop i).bind fun x => if i < x.2 then readBody t q opening limit stop (text ++ x.1) x.2 else none
      else if c == '\n' && q != '`' then some (none, i)
      else if q == '`' && c == '$' && Text.headIs '{' r then (skipString t stop opening).bind fun next => some (none, next)
      else readBody t q opening limit stop (text ++ [c]) (i + 1) := by
  rw [readBody, dif_pos hlimit, h.get]
  simp only [opensSubstitution_stands hstop h, Option.bind_eq_bind, Option.bind_some]
  rfl

theorem readBody_reads (hstop : stop ≤ t.length) (hq : isQuote q = true) (hbody : Stands t stop (q :: body) opening)
    {cap : Nat} (hcap : limit = min stop cap) {budget : Nat} (acc : Text) {s : Text} {i : Nat}
    (h : Stands t stop s i) (hbudget : budget = cap - i) :
    ∃ read, readBody t q opening limit stop acc.reverse i = some read ∧
      Reads t stop
        (Literal.readBody q ⟨none, if limit < stop then Literal.skipString q body else []⟩ body budget acc s) read := by
  fun_induction Literal.readBody q ⟨none, if limit < stop then Literal.skipString q body else []⟩ body budget acc s
    generalizing i with
  | case1 =>
    have hend := h.stop_le hstop
    exact readBody_end hstop hbody _ (by omega)
  | case2 => exact readBody_end hstop hbody _ (by omega)
  | case3 acc c r budget hc =>
    have hlt := h.cons.1
    rw [readBody_cons hstop _ h (by omega), if_pos hc]
    exact ⟨_, rfl, rfl, h.cons.2.2⟩
  | case4 acc c r budget hc hback d n hescape ih =>
    obtain ⟨hlt, -, hr⟩ := h.cons
    obtain ⟨decoded, hdecoded, hwhere⟩ := escape_decodes hstop hr
    rw [readBody_cons hstop _ h (by omega), if_neg hc, if_pos hback, hdecoded, Option.bind_some]
    rw [hescape] at hwhere
    rcases hwhere with rfl | ⟨hpast, hone, hdigits⟩
    · have htaken := escape_le r
      have hlen := hr.length hstop
      rw [hescape] at htaken
      rw [if_pos (Nat.lt_add_right n (Nat.lt_succ_self i))]
      have hnext := ih (hr.drop (by omega)) (by omega)
      rw [List.reverse_append, List.reverse_reverse] at hnext
      exact hnext
    · obtain rfl : n = 1 := hone
      rw [if_pos (Nat.lt_trans h.cons.1 hpast), readBody_hex hq _ _ _ _ hdigits]
      exact readBody_end hstop hbody _ (by omega)
  | case5 acc c r budget hc hback hfeed =>
    have hlt := h.cons.1
    rw [readBody_cons hstop _ h (by omega), if_neg hc, if_neg hback, if_pos hfeed]
    exact ⟨_, rfl, rfl, h⟩
  | case6 acc c r budget hc hback hfeed hopens =>
    have hlt := h.cons.1
    obtain ⟨p, hp, -, hrest⟩ := skipString_stands hstop hbody
    rw [readBody_cons hstop _ h (by omega), if_neg hc, if_neg hback, if_neg hfeed, if_pos hopens, hp, Option.bind_some]
    exact ⟨_, rfl, rfl, hrest⟩
  | case7 acc c r budget hc hback hfeed hopens ih =>
    have hlt := h.cons.1
    rw [readBody_cons hstop _ h (by omega), if_neg hc, if_neg hback, if_neg hfeed, if_neg hopens, ← List.reverse_cons]
    exact ih h.cons.2.2 (by omega)

end

theorem readString_reads (hstop : stop ≤ t.length) (maxLength : Option Nat) {q : Code} {body : Text} {i : Nat}
    (h : Stands t stop (q :: body) i) :
    ∃ read, readString t stop maxLength i = some read ∧
      Reads t stop (Literal.readString maxLength (q :: body)) read := by
  obtain ⟨hlt, -, hbody⟩ := h.cons
  have hlen := hbody.length hstop
  unfold readString Literal.readString
  rw [h.get]
  simp only [Option.bind_eq_bind, Option.bind_some]
  by_cases hq : isQuote q = true
  · simp only [hq, Bool.not_true, Bool.false_eq_true, if_false]
    cases maxLength with
    | none =>
      have hbudget : body.length = stop - (i + 1) := by omega
      have hread := readBody_reads hstop hq h (Nat.min_self stop).symm [] hbody hbudget
      rwa [if_neg (Nat.lt_irrefl stop)] at hread
    | some n =>
      have hbudget : n = i + 1 + n - (i + 1) := by omega
      have hread := readBody_reads hstop hq h (rfl : min stop (i + 1 + n) = min stop (i + 1 + n)) [] hbody hbudget
      have hshort : min stop (i + 1 + n) < stop ↔ n < body.length := by omega
      simp only [hshort] at hread
      exact hread
  · simp only [hq, Bool.not_false, if_true]
    exact ⟨(none, i), rfl, rfl, h⟩

theorem unquote_eq (literal : Text) : unquote literal = some (Literal.unquote literal) := by
  unfold unquote Literal.unquote
  cases hs : literal.trim with
  | nil => rfl
  | cons q body =>
    have hstop := Nat.le_refl (q :: body).length
    obtain ⟨read, hread, hvalue, hrest⟩ := readString_reads (t := q :: body) hstop none
      ⟨Nat.zero_le _, Text.window_whole (q :: body)⟩
    have hend : read.2 = (q :: body).length ↔ (Literal.readString none (q :: body)).rest.isEmpty = true := by
      have hlen := hrest.length hstop
      rw [List.isEmpty_iff_length_eq_zero]
      omega
    simp only [List.isEmpty_cons, Bool.false_eq_true, if_false, hread, ← hend, ← hvalue]
    rfl

end MessageCatalog.Literal.Walk
