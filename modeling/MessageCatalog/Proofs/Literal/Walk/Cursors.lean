/-
  MessageCatalog.Proofs.Literal.Walk.Cursors — the loops over positions against the cursors.

  A position goes with a rest where the rest is what lies between it and `stop` (`Stands`). A
  loop that is started at the position of a rest gets to the position of what the cursor leaves
  of that rest: it looks at nothing behind the text, ends, and stands at `stop` at the latest.
-/

import MessageCatalog.Proofs.Literal.Located
import MessageCatalog.Proofs.Literal.Walk

namespace MessageCatalog.Literal.Walk

variable {t : Text} {stop : Nat}

/-! ## Positions of rests -/

/-- A cursor with `rest` left of what lies before `stop` stands at `p`. -/
structure Stands (t : Text) (stop : Nat) (rest : Text) (p : Nat) : Prop where
  le : p ≤ stop
  window : t.window p stop = rest

theorem lt_of_window {c : Code} {r : Text} {i : Nat} (h : t.window i stop = c :: r) : i < stop := by
  have hlen := congrArg List.length h
  rw [Text.window, List.length_drop, List.length_take, List.length_cons] at hlen
  omega

namespace Stands

theorem here {i : Nat} (h : i ≤ stop) : Stands t stop (t.window i stop) i := ⟨h, rfl⟩

theorem length (hstop : stop ≤ t.length) {s : Text} {i : Nat} (h : Stands t stop s i) : i + s.length = stop := by
  have hle := h.le
  rw [← h.window, Text.length_window hstop]
  omega

theorem positionOf (hstop : stop ≤ t.length) {s : Text} {i : Nat} (h : Stands t stop s i) :
    positionOf stop s = i := by
  have hlen := h.length hstop
  unfold Literal.positionOf
  omega

theorem drop {s : Text} {i : Nat} (h : Stands t stop s i) {n : Nat} (hn : i + n ≤ stop) :
    Stands t stop (s.drop n) (i + n) := by
  refine ⟨hn, ?_⟩
  rw [← h.window, Text.window, Text.window, List.drop_drop]

theorem take {s : Text} {i : Nat} (h : Stands t stop s i) {n : Nat} (hn : i + n ≤ stop) :
    Stands t (i + n) (s.take n) i := by
  refine ⟨by omega, ?_⟩
  rw [← h.window, Text.window_eq_take, Text.window_eq_take, List.take_take]
  congr 1
  omega

theorem nil (t : Text) (stop : Nat) : Stands t stop [] stop :=
  ⟨Nat.le_refl _, by rw [Text.window, List.drop_eq_nil_of_le (List.length_take_le _ _)]⟩

theorem stop_le (hstop : stop ≤ t.length) {i : Nat} (h : Stands t stop [] i) : stop ≤ i :=
  Nat.le_of_eq (h.length hstop).symm

theorem cons {c : Code} {r : Text} {i : Nat} (h : Stands t stop (c :: r) i) :
    i < stop ∧ t.drop i = c :: t.drop (i + 1) ∧ Stands t stop r (i + 1) := by
  have hlt := lt_of_window h.window
  have hc := Text.getElem?_window [] h.window
  obtain ⟨hi, hget⟩ := List.getElem?_eq_some_iff.1 hc
  refine ⟨hlt, ?_, h.drop (n := 1) hlt⟩
  rw [← hget]
  exact List.drop_eq_getElem_cons hi

theorem get {c : Code} {r : Text} {i : Nat} (h : Stands t stop (c :: r) i) : t[i]? = some c := by
  exact Text.getElem?_window [] h.window

theorem le_of_length (hstop : stop ≤ t.length) {s rest : Text} {i p : Nat} (hs : Stands t stop s i)
    (h : Stands t stop rest p) (hle : rest.length ≤ s.length) : i ≤ p := by
  have hi := hs.length hstop
  have hp := h.length hstop
  omega

theorem upTo (hstop : stop ≤ t.length) {s rest : Text} {i p : Nat} (hs : Stands t stop s i)
    (h : Stands t stop rest p) (hle : i ≤ p) : t.window i p = s.upTo rest := by
  have hi := hs.length hstop
  have hp := h.length hstop
  have hcut := (hs.take (n := p - i) (by have := h.le; omega)).window
  rw [Nat.add_sub_cancel' hle] at hcut
  rw [hcut, Text.upTo]
  congr 1
  omega

end Stands

theorem looksAt_cons {c : Code} {r : Text} {i : Nat} (h : Stands t stop (c :: r) i) (p : Code → Bool) :
    looksAt t stop i p = some (p c) := by
  unfold looksAt
  rw [if_pos h.cons.1, h.get, Option.map_some]

theorem looksAt_end (p : Code → Bool) {i : Nat} (h : stop ≤ i) : looksAt t stop i p = some false := by
  unfold looksAt
  rw [if_neg (by omega)]

theorem looksAt_stands (hstop : stop ≤ t.length) {s : Text} {i : Nat} (h : Stands t stop s i) (p : Code → Bool) :
    looksAt t stop i p = some (s.head?.any p) := by
  cases s with
  | nil => exact looksAt_end p (h.stop_le hstop)
  | cons c r => exact looksAt_cons h p

theorem looksAt_headIs (hstop : stop ≤ t.length) {s : Text} {i : Nat} (h : Stands t stop s i) (c : Code) :
    looksAt t stop i (fun d => d == c) = some (Text.headIs c s) := by
  rw [looksAt_stands hstop h]
  cases s with
  | nil => rfl
  | cons d r => simp [Text.headIs]

/-! ## Looking for a part -/

theorem find?_step (part : Text) {start : Nat} (h : start < stop) :
    find? t part start stop =
      if start + part.length ≤ stop ∧ part <+: t.drop start then some start else find? t part (start + 1) stop := by
  have hcount : stop - start = (stop - (start + 1)) + 1 := by omega
  unfold find?
  rw [hcount, List.range'_succ, List.find?_cons]
  by_cases hhere : start + part.length ≤ stop ∧ part <+: t.drop start
  · rw [if_pos hhere]
    simp [hhere.1, List.isPrefixOf_iff_prefix.2 hhere.2]
  · rw [if_neg hhere]
    rw [← List.isPrefixOf_iff_prefix, ← decide_eq_true_iff (p := _ ≤ _), ← Bool.and_eq_true] at hhere
    rw [Bool.not_eq_true] at hhere
    rw [hhere]

theorem find?_end (part : Text) {start : Nat} (h : stop ≤ start) : find? t part start stop = none := by
  have hcount : stop - start = 0 := by omega
  unfold find?
  rw [hcount]
  rfl

theorem find?_code (hstop : stop ≤ t.length) (c : Code) {s : Text} {i : Nat} (h : Stands t stop s i) :
    find? t [c] i stop =
      if (s.takeWhile (· != c)).length < s.length then some (i + (s.takeWhile (· != c)).length) else none := by
  induction s generalizing i with
  | nil =>
    rw [find?_end _ (h.stop_le hstop)]
    rfl
  | cons d r ih =>
    obtain ⟨hlt, hdrop, hr⟩ := h.cons
    rw [find?_step _ hlt, hdrop]
    by_cases hd : d = c
    · subst hd
      rw [if_pos ⟨hlt, by simp⟩]
      simp
    · rw [if_neg fun hfound => hd (List.cons_prefix_cons.1 hfound.2).1.symm, ih hr]
      simp [hd, Nat.add_assoc, Nat.add_comm 1]

theorem behind_here (part : Text) {start : Nat} (h : start < stop) (hlen : start + part.length ≤ stop)
    (hpart : part <+: t.drop start) : behind t part start stop = start + part.length := by
  unfold behind
  rw [find?_step part h, if_pos ⟨hlen, hpart⟩]

theorem behind_later (part : Text) {start : Nat} (h : start < stop)
    (hpart : start + part.length ≤ stop → ¬ part <+: t.drop start) :
    behind t part start stop = behind t part (start + 1) stop := by
  unfold behind
  rw [find?_step part h, if_neg (not_and.2 hpart)]

theorem behind_end (part : Text) {start : Nat} (h : stop ≤ start) : behind t part start stop = stop := by
  unfold behind
  rw [find?_end part h]

theorem le_behind (part : Text) {start : Nat} (h : start ≤ stop) : start ≤ behind t part start stop := by
  unfold behind
  split
  · rename_i i hfound
    have hi := (List.mem_range'_1.1 (List.mem_of_find?_eq_some hfound)).1
    omega
  · exact h

theorem behind_line (hstop : stop ≤ t.length) {s : Text} {i : Nat} (h : Stands t stop s i) :
    Stands t stop (afterLine s) (behind t ['\n'] i stop) := by
  induction s generalizing i with
  | nil =>
    rw [behind_end _ (h.stop_le hstop)]
    exact Stands.nil t stop
  | cons c r ih =>
    obtain ⟨hlt, hdrop, hr⟩ := h.cons
    rw [afterLine]
    by_cases hc : c = ('\n' : Code)
    · rw [behind_here ['\n'] hlt hlt (by simp [hdrop, hc]), if_pos (by simpa using hc)]
      exact hr
    · rw [behind_later _ hlt fun _ => by simpa [hdrop] using Ne.symm hc, if_neg (by simpa using hc)]
      exact ih hr

theorem behind_block (hstop : stop ≤ t.length) {s : Text} {i : Nat} (h : Stands t stop s i) :
    Stands t stop (afterBlock s) (behind t ['*', '/'] i stop) := by
  fun_induction afterBlock s generalizing i with
  | case1 =>
    rw [behind_end _ (h.stop_le hstop)]
    exact Stands.nil t stop
  | case2 c =>
    -- one code point is too short
    obtain ⟨hlt, -, hr⟩ := h.cons
    have hend := hr.stop_le hstop
    rw [behind_later _ hlt fun hle => absurd hle (by simp; omega), behind_end _ hend]
    exact Stands.nil t stop
  | case3 c d s hc =>
    obtain ⟨hlt, hdrop, hr⟩ := h.cons
    obtain ⟨hlt', hdrop', hs⟩ := hr.cons
    simp only [Bool.and_eq_true, beq_iff_eq] at hc
    rw [behind_here ['*', '/'] hlt hlt' (by simp [hdrop, hdrop', hc])]
    exact hs
  | case4 c d s hc ih =>
    obtain ⟨hlt, hdrop, hr⟩ := h.cons
    obtain ⟨-, hdrop', -⟩ := hr.cons
    have hmiss : ¬ ([('*' : Code), ('/' : Code)] : Text) <+: t.drop i := by
      rw [hdrop, hdrop', List.cons_prefix_cons, List.cons_prefix_cons]
      rintro ⟨rfl, rfl, -⟩
      exact hc rfl
    rw [behind_later _ hlt fun _ => hmiss]
    exact ih hr

/-! ## Trivia, strings and braces -/

theorem skipTrivia_cons (hstop : stop ≤ t.length) {c : Code} {r : Text} {i : Nat} (h : Stands t stop (c :: r) i) :
    skipTrivia t stop i =
      if isBlank c then skipTrivia t stop (i + 1)
      else if Literal.opensComment c r then
        if Text.headIs '/' r then skipTrivia t stop (behind t ['\n'] (i + 2) stop)
        else skipTrivia t stop (behind t ['*', '/'] (i + 2) stop)
      else some i := by
  obtain ⟨hlt, -, hr⟩ := h.cons
  rw [skipTrivia, dif_pos hlt, h.get]
  cases r with
  | nil =>
    have hend := hr.stop_le hstop
    have hlast : ¬ i + 1 < stop := by omega
    simp [Literal.opensComment, Text.headIs, hlast]
  | cons d s =>
    obtain ⟨hlt', -⟩ := hr.cons
    have hnext (part : Text) : i < behind t part (i + 2) stop := Nat.lt_of_succ_lt (le_behind part hlt')
    by_cases hslash : c = ('/' : Code)
    · by_cases hline : d = ('/' : Code)
      · simp [Literal.opensComment, Text.headIs, hlt', hr.get, hslash, hline, hnext]
      · by_cases hblock : d = ('*' : Code)
        · simp [Literal.opensComment, Text.headIs, hlt', hr.get, hslash, hblock, hnext]
        · simp at hline hblock
          simp [Literal.opensComment, Text.headIs, hlt', hr.get, hslash, hline, hblock]
    · simp at hslash
      simp [Literal.opensComment, Text.headIs, hlt', hr.get, hslash]

theorem skipTrivia_end {i : Nat} (h : stop ≤ i) : skipTrivia t stop i = some i := by
  rw [skipTrivia, dif_neg (by omega)]
  rfl

theorem skipTrivia_stands (hstop : stop ≤ t.length) {s : Text} {i : Nat} (h : Stands t stop s i) :
    ∃ p, skipTrivia t stop i = some p ∧ Stands t stop (Literal.skipTrivia s) p := by
  fun_induction Literal.skipTrivia s generalizing i with
  | case1 => exact ⟨i, skipTrivia_end (h.stop_le hstop), h⟩
  | case2 c r hc ih =>
    rw [skipTrivia_cons hstop h, if_pos hc]
    exact ih h.cons.2.2
  | case3 c r hc hcomment hline ih =>
    rw [skipTrivia_cons hstop h, if_neg hc, if_pos hcomment, if_pos hline]
    obtain ⟨s, rfl⟩ := Text.headIs_cons hline
    exact ih (behind_line hstop h.cons.2.2.cons.2.2)
  | case4 c r hc hcomment hline ih =>
    rw [skipTrivia_cons hstop h, if_neg hc, if_pos hcomment, if_neg hline]
    obtain ⟨s, rfl⟩ : ∃ s, r = ('*' : Code) :: s := by
      simp only [Literal.opensComment, hline, Bool.false_or, Bool.and_eq_true] at hcomment
      exact Text.headIs_cons hcomment.2
    exact ih (behind_block hstop h.cons.2.2.cons.2.2)
  | case5 c r hc hcomment =>
    rw [skipTrivia_cons hstop h, if_neg hc, if_neg hcomment]
    exact ⟨i, rfl, h⟩

theorem skipBody_end (q : Code) {i : Nat} (h : stop ≤ i) : skipBody t q stop i = some stop := by
  rw [skipBody, dif_neg (by omega)]
  rfl

theorem skipBody_cons (q : Code) {c : Code} {r : Text} {i : Nat} (h : Stands t stop (c :: r) i) :
    skipBody t q stop i =
      if c == '\\' then skipBody t q stop (i + 2)
      else if c == q then some (i + 1)
      else if c == '\n' && q != '`' then some i
      else skipBody t q stop (i + 1) := by
  rw [skipBody, dif_pos h.cons.1, h.get]
  rfl

theorem skipBody_stands (hstop : stop ≤ t.length) (q : Code) {s : Text} {i : Nat} (h : Stands t stop s i) :
    ∃ p, skipBody t q stop i = some p ∧ Stands t stop (Literal.skipString q s) p := by
  fun_induction Literal.skipString q s generalizing i with
  | case1 => exact ⟨stop, skipBody_end q (h.stop_le hstop), Stands.nil t stop⟩
  | case2 c hc =>
    -- the backslash is the last code point and takes one that is not there
    have hend := h.cons.2.2.stop_le hstop
    rw [skipBody_cons q h, if_pos hc]
    exact ⟨stop, skipBody_end q (by omega), Stands.nil t stop⟩
  | case3 c hc d s ih =>
    rw [skipBody_cons q h, if_pos hc]
    exact ih h.cons.2.2.cons.2.2
  | case4 c r hc hq =>
    rw [skipBody_cons q h, if_neg hc, if_pos hq]
    exact ⟨i + 1, rfl, h.cons.2.2⟩
  | case5 c r hc hq hfeed =>
    rw [skipBody_cons q h, if_neg hc, if_neg hq, if_pos hfeed]
    exact ⟨i, rfl, h⟩
  | case6 c r hc hq hfeed ih =>
    rw [skipBody_cons q h, if_neg hc, if_neg hq, if_neg hfeed]
    exact ih h.cons.2.2

theorem skipString_stands (hstop : stop ≤ t.length) {q : Code} {body : Text} {i : Nat}
    (h : Stands t stop (q :: body) i) :
    ∃ p, skipString t stop i = some p ∧ i < p ∧ Stands t stop (Literal.skipString q body) p := by
  obtain ⟨p, hp, hrest⟩ := skipBody_stands hstop q h.cons.2.2
  refine ⟨p, ?_, h.cons.2.2.le_of_length hstop hrest (length_skipString_le q body), hrest⟩
  unfold skipString
  rw [h.get]
  exact hp

/-- A comment takes its two slashes, or slash and star, at least. -/
theorem comment_stands (hstop : stop ≤ t.length) {c : Code} {r : Text} {i : Nat} (h : Stands t stop (c :: r) i)
    (hcomment : Literal.opensComment c r = true) :
    ∃ p, skipTrivia t stop i = some p ∧ i < p ∧ Stands t stop (Literal.skipTrivia (c :: r)) p := by
  obtain ⟨p, hp, hrest⟩ := skipTrivia_stands hstop h
  have hless := length_skipTrivia_lt hcomment
  rw [List.length_cons] at hless
  exact ⟨p, hp, h.cons.2.2.le_of_length hstop hrest (Nat.le_of_lt_succ hless), hrest⟩

theorem opensComment_stands (hstop : stop ≤ t.length) {c : Code} {r : Text} {i : Nat}
    (h : Stands t stop (c :: r) i) : opensComment t stop i c = some (Literal.opensComment c r) := by
  unfold opensComment Literal.opensComment Text.headIs
  rw [looksAt_stands hstop h.cons.2.2]
  cases c == ('/' : Code) with
  | false => rfl
  | true => cases r <;> simp

theorem closingBrace_end (depth : Int) {i : Nat} (h : stop ≤ i) : closingBrace t stop depth i = some none := by
  rw [closingBrace, dif_neg (by omega)]
  rfl

theorem closingBrace_cons (hstop : stop ≤ t.length) (depth : Int) {c : Code} {r : Text} {i : Nat}
    (h : Stands t stop (c :: r) i) :
    closingBrace t stop depth i =
      if isQuote c then
        (skipString t stop i).bind fun next => if i < next then closingBrace t stop depth next else none
      else if Literal.opensComment c r then
        (skipTrivia t stop i).bind fun next => if i < next then closingBrace t stop depth next else none
      else if c == '{' then closingBrace t stop (depth + 1) (i + 1)
      else if c == '}' then
        if depth = 1 then some (some i) else closingBrace t stop (depth - 1) (i + 1)
      else closingBrace t stop depth (i + 1) := by
  rw [closingBrace, dif_pos h.cons.1, h.get]
  simp only [opensComment_stands hstop h, Option.bind_eq_bind, Option.bind_some]
  rfl

theorem closingBrace_stands (hstop : stop ≤ t.length) (depth : Int) {s : Text} {i : Nat} (h : Stands t stop s i) :
    ∃ found, closingBrace t stop depth i = some found ∧
      (found = none ∧ Literal.closingBrace depth s = none ∨
        ∃ p rest, found = some p ∧ Literal.closingBrace depth s = some rest ∧ Stands t stop rest p) := by
  fun_induction Literal.closingBrace depth s generalizing i with
  | case1 => exact ⟨none, closingBrace_end _ (h.stop_le hstop), .inl ⟨rfl, rfl⟩⟩
  | case2 depth c r hq ih =>
    obtain ⟨p, hp, hlt, hrest⟩ := skipString_stands hstop h
    rw [closingBrace_cons hstop depth h, if_pos hq, hp, Option.bind_some, if_pos hlt]
    exact ih hrest
  | case3 depth c r hq hcomment ih =>
    obtain ⟨p, hp, hlt, hrest⟩ := comment_stands hstop h hcomment
    rw [closingBrace_cons hstop depth h, if_neg hq, if_pos hcomment, hp, Option.bind_some, if_pos hlt]
    exact ih hrest
  | case4 depth c r hq hcomment hopen ih =>
    rw [closingBrace_cons hstop depth h, if_neg hq, if_neg hcomment, if_pos hopen]
    exact ih h.cons.2.2
  | case5 c r hq hcomment hopen hclose =>
    rw [closingBrace_cons hstop 1 h, if_neg hq, if_neg hcomment, if_neg hopen, if_pos hclose, if_pos rfl]
    exact ⟨some i, rfl, .inr ⟨i, c :: r, rfl, rfl, h⟩⟩
  | case6 depth c r hq hcomment hopen hclose hdepth ih =>
    rw [closingBrace_cons hstop depth h, if_neg hq, if_neg hcomment, if_neg hopen, if_pos hclose, if_neg hdepth]
    exact ih h.cons.2.2
  | case7 depth c r hq hcomment hopen hclose ih =>
    rw [closingBrace_cons hstop depth h, if_neg hq, if_neg hcomment, if_neg hopen, if_neg hclose]
    exact ih h.cons.2.2

end MessageCatalog.Literal.Walk
