/-
  MessageCatalog.Proofs.Literal.Balance — finding an end by counting brackets.

  A value that is no text is passed within its own length, whatever its brackets hold.
  The members of an object, strings and comments included, leave the brace counter where
  it was, so the brace behind them is the one that closes the object.
-/

import MessageCatalog.Proofs.Literal.Cursor

namespace MessageCatalog.Literal

open Source

/-! ## Counting braces -/

theorem closingBrace_code {c : Code} {t : Text} (hq : isQuote c = false) (hs : ¬ opensComment c t = true)
    (ho : c ≠ '{') (hc : c ≠ '}') (depth : Int) : closingBrace depth (c :: t) = closingBrace depth t := by
  rw [closingBrace, if_neg (by simp [hq]), dif_neg hs, if_neg (by simpa using ho), if_neg (by simpa using hc)]

theorem closingBrace_cons {c : Code} (hq : isQuote c = false) (hs : c ≠ '/') (ho : c ≠ '{') (hc : c ≠ '}')
    (depth : Int) (t : Text) : closingBrace depth (c :: t) = closingBrace depth t :=
  closingBrace_code hq (not_opensComment hs t) ho hc depth

theorem closingBrace_open (depth : Int) (t : Text) :
    closingBrace depth (('{' : Code) :: t) = closingBrace (depth + 1) t := by
  rw [closingBrace, if_neg (by decide), dif_neg (by simp [opensComment]), if_pos (beq_self_eq_true _)]

theorem closingBrace_close (depth : Int) (t : Text) :
    closingBrace depth (('}' : Code) :: t) =
      if depth = 1 then some (('}' : Code) :: t) else closingBrace (depth - 1) t := by
  rw [closingBrace, if_neg (by decide), dif_neg (by simp [opensComment]), if_neg (by decide),
    if_pos (beq_self_eq_true _)]

theorem closingBrace_append {r : Text} (h : ∀ c ∈ r, isQuote c = false ∧ c ≠ '/' ∧ c ≠ '{' ∧ c ≠ '}')
    (depth : Int) (t : Text) : closingBrace depth (r ++ t) = closingBrace depth t := by
  induction r with
  | nil => rfl
  | cons c r ih =>
    obtain ⟨hq, hs, ho, hc⟩ := h c (by simp)
    rw [List.cons_append, closingBrace_cons hq hs ho hc, ih fun d hd => h d (List.mem_cons_of_mem c hd)]

theorem closingBrace_quoted {q : Code} (hq : isQuote q = true) {t u : Text} (hskip : skipString q t = u)
    (depth : Int) : closingBrace depth (q :: t) = closingBrace depth u := by
  rw [closingBrace, if_pos hq, hskip]

theorem closingBrace_string (s : Quoted) (depth : Int) (t : Text) :
    closingBrace depth (s.print ++ t) = closingBrace depth t := by
  rw [Quoted.print, List.cons_append, List.append_assoc]
  exact closingBrace_quoted s.isQuote (skipString_plain s.isQuote s.isPlain t) depth

theorem blank_inert {c : Code} (h : isBlank c = true) : isQuote c = false ∧ c ≠ '/' ∧ c ≠ '{' ∧ c ≠ '}' := by
  simp [isBlank] at h
  simp [isQuote, isNameQuote]
  grind

theorem comment_unquoted {c : Code} {r : Text} (h : opensComment c r = true) : isQuote c = false := by
  simp only [opensComment, Bool.and_eq_true, beq_iff_eq] at h
  rw [h.1]
  decide

theorem closingBrace_comment {c : Code} {r : Text} (h : opensComment c r = true) (depth : Int) :
    closingBrace depth (c :: r) = closingBrace depth (skipTrivia (c :: r)) := by
  rw [closingBrace, if_neg (by simp [comment_unquoted h]), dif_pos h]

theorem closingBrace_skipTrivia (depth : Int) (t : Text) :
    closingBrace depth (skipTrivia t) = closingBrace depth t := by
  fun_induction skipTrivia t with
  | case1 => rfl
  | case2 c r hb ih =>
    obtain ⟨hq, hs, ho, hc⟩ := blank_inert hb
    rw [closingBrace_cons hq hs ho hc, ih]
  | case3 c r hb hc hl ih => rw [closingBrace_comment hc, skipTrivia, if_neg hb, if_pos hc, if_pos hl]
  | case4 c r hb hc hl ih => rw [closingBrace_comment hc, skipTrivia, if_neg hb, if_pos hc, if_neg hl]
  | case5 => rfl

theorem closingBrace_gap (g : Gap) (depth : Int) (t : Text) :
    closingBrace depth (g.print ++ t) = closingBrace depth t := by
  rw [← closingBrace_skipTrivia, skipTrivia_gap, closingBrace_skipTrivia]

theorem ordinary_inert {c : Code} (h : isOrdinary c = true) :
    isQuote c = false ∧ c ≠ '/' ∧ c ≠ '{' ∧ c ≠ '}' := by
  simp only [isOrdinary, Bracket.all, List.all_cons, List.all_nil, Bool.and_true, Bool.and_eq_true, bne_iff_ne,
    Bool.not_eq_true'] at h
  exact ⟨h.1.1, h.1.2, h.2.2.2.1, h.2.2.2.2⟩

/-- What brackets enclose is passed if it is passed with a brace open around it. -/
theorem closingBrace_group (b : Bracket) {depth : Int} (hd : 1 ≤ depth) {inside t : Text}
    (hinside : ∀ {depth : Int}, 1 ≤ depth →
      closingBrace depth (inside ++ b.closing :: t) = closingBrace depth (b.closing :: t)) :
    closingBrace depth (b.opening :: (inside ++ b.closing :: t)) = closingBrace depth t := by
  cases b with
  | round | square =>
    rw [closingBrace_cons (by decide) (by decide) (by decide) (by decide), hinside hd,
      closingBrace_cons (by decide) (by decide) (by decide) (by decide)]
  | curly =>
    rw [Bracket.opening, closingBrace_open, hinside (by omega), Bracket.closing, closingBrace_close,
      if_neg (by omega), Int.add_sub_cancel]

theorem closingBrace_pieces (p : Pieces) {depth : Int} (hd : 1 ≤ depth) (t : Text) :
    closingBrace depth (p.print ++ t) = closingBrace depth t := by
  induction p generalizing depth t with
  | none => rfl
  | code c h rest ih =>
    obtain ⟨hq, hs, ho, hc⟩ := ordinary_inert h
    rw [Pieces.print, List.cons_append, closingBrace_cons hq hs ho hc, ih hd]
  | string s rest ih => rw [Pieces.print, List.append_assoc, closingBrace_string, ih hd]
  | group b inside rest ih₁ ih₂ =>
    rw [Pieces.print, List.cons_append, List.append_assoc, List.cons_append,
      closingBrace_group b hd fun hd => ih₁ hd _, ih₂ hd]

theorem segment_inert {c : Code} (h : Key.continuesSegment c = true) :
    isQuote c = false ∧ c ≠ '/' ∧ c ≠ '{' ∧ c ≠ '}' := by
  simp [Key.continuesSegment, Key.startsSegment, Text.isLetter, Text.isUpper, Text.isLower, Text.isDigit] at h
  simp [isQuote, isNameQuote]
  grind

theorem closingBrace_head (h : Head) (depth : Int) (t : Text) :
    closingBrace depth (h.print ++ t) = closingBrace depth t := by
  have hname : ∀ t, closingBrace depth (h.name.print ++ t) = closingBrace depth t := by
    intro t
    cases h.name with
    | bare c r hc hr =>
      refine closingBrace_append (r := c :: r) (fun d hd => segment_inert ?_) depth t
      rcases List.mem_cons.1 hd with rfl | hd
      · simp [Key.continuesSegment, hc]
      · exact List.all_eq_true.1 hr d hd
    | quoted s _ => exact closingBrace_string s depth t
  rw [Head.print, List.append_assoc, closingBrace_gap, List.append_assoc, hname, List.append_assoc,
    closingBrace_gap, List.cons_append, closingBrace_cons (by decide) (by decide) (by decide) (by decide),
    closingBrace_gap]

theorem closingBrace_leaf (v : Leaf) {depth : Int} (hd : 1 ≤ depth) (t : Text) :
    closingBrace depth (v.print ++ t) = closingBrace depth t := by
  cases v with
  | other e => exact closingBrace_pieces e.pieces hd t
  | text first more =>
    rw [Leaf.print, List.append_assoc, closingBrace_string]
    induction more with
    | nil => rfl
    | cons x more ih =>
      rw [List.flatMap_cons, List.append_assoc, Summand.print, List.append_assoc, closingBrace_gap,
        List.cons_append, closingBrace_cons (by decide) (by decide) (by decide) (by decide), List.append_assoc,
        closingBrace_gap, closingBrace_string, ih]

mutual

theorem closingBrace_members (m : Members) {depth : Int} (hd : 1 ≤ depth) (t : Text) :
    closingBrace depth (m.print ++ t) = closingBrace depth t := by
  match m with
  | .done gap => exact closingBrace_gap gap depth t
  | .leaf head value tail =>
    rw [Members.print, List.append_assoc, closingBrace_head, List.append_assoc, closingBrace_leaf value hd,
      closingBrace_tail tail hd]
  | .object head _ inner tail =>
    rw [Members.print, List.append_assoc, closingBrace_head, List.cons_append, closingBrace_open,
      List.append_assoc, closingBrace_members inner (by omega), List.cons_append, closingBrace_close,
      if_neg (by omega), Int.add_sub_cancel, closingBrace_tail tail hd]

theorem closingBrace_tail (l : Tail) {depth : Int} (hd : 1 ≤ depth) (t : Text) :
    closingBrace depth (l.print ++ t) = closingBrace depth t := by
  match l with
  | .last gap => exact closingBrace_gap gap depth t
  | .comma gap rest =>
    rw [Tail.print, List.append_assoc, closingBrace_gap, List.cons_append,
      closingBrace_cons (by decide) (by decide) (by decide) (by decide), closingBrace_members rest hd]

end

/-- The brace behind the members closes the object. -/
theorem closingBrace_object (m : Members) (t : Text) :
    closingBrace 1 (m.print ++ ('}' : Code) :: t) = some (('}' : Code) :: t) := by
  rw [closingBrace_members m (Int.le_refl 1), closingBrace_close, if_pos rfl]

/-! ## Passing a value -/

theorem opening_inert (b : Bracket) :
    isQuote b.opening = false ∧ b.opening ≠ '/' ∧ closerOf b.opening = some b.closing := by
  cases b <;> decide

theorem closing_inert (b : Bracket) :
    isQuote b.closing = false ∧ b.closing ≠ '/' ∧ closerOf b.closing = none := by
  cases b <;> decide

section

variable {closers : List Code} {budget : Nat} {c : Code}

theorem skipValue_nil : skipValue closers budget [] = [] := by rw [skipValue]

theorem skipValue_zero (t : Text) : skipValue closers 0 t = t := by
  cases t with
  | nil => exact skipValue_nil
  | cons c r => rw [skipValue]

/-- A string is passed as a whole, wherever skipping it stops. -/
theorem skipValue_quoted (hq : isQuote c = true) (n : Nat) {body t : Text}
    (hskip : skipString c (body ++ c :: t) = t) :
    skipValue closers (body.length + 2 + n) (c :: (body ++ c :: t)) = skipValue closers n t := by
  have hsplit : body.length + 2 + n = body.length + n + 1 + 1 := by omega
  rw [hsplit, skipValue, if_pos hq, hskip]
  congr 1
  simp
  omega

theorem skipValue_string (s : Quoted) (hb : s.print.length ≤ budget) (t : Text) :
    skipValue closers budget (s.print ++ t) = skipValue closers (budget - s.print.length) t := by
  have hlength : s.print.length = s.body.length + 2 := by simp [Quoted.print]
  rw [hlength] at hb ⊢
  obtain ⟨n, rfl⟩ : ∃ n, budget = s.body.length + 2 + n := ⟨budget - (s.body.length + 2), by omega⟩
  rw [Quoted.print, List.cons_append, List.append_assoc, Nat.add_sub_cancel_left]
  exact skipValue_quoted s.isQuote n (skipString_plain s.isQuote s.isPlain t)

theorem skipValue_code {t : Text} (hq : isQuote c = false) (hs : ¬ opensComment c t = true) (ho : closerOf c = none)
    (hc : closers.head? ≠ some c) (he : closers = [] → c ≠ ',' ∧ c ≠ '}' ∧ c ≠ '\n') :
    skipValue closers (budget + 1) (c :: t) = skipValue closers budget t := by
  have hend : ¬ (closers.isEmpty && (c == ',' || c == '}' || c == '\n')) = true := by
    intro e
    simp only [Bool.and_eq_true, List.isEmpty_iff, Bool.or_eq_true, beq_iff_eq] at e
    obtain ⟨h₁, h₂, h₃⟩ := he e.1
    exact e.2.elim (fun e => e.elim h₁ h₂) h₃
  rw [skipValue, if_neg (by simp [hq]), dif_neg hs]
  simp only [ho]
  rw [if_neg (by simpa using hc), if_neg hend]

theorem skipValue_inert (hq : isQuote c = false) (hs : c ≠ '/') (ho : closerOf c = none)
    (hc : closers.head? ≠ some c) (he : closers = [] → c ≠ ',' ∧ c ≠ '}' ∧ c ≠ '\n') (t : Text) :
    skipValue closers (budget + 1) (c :: t) = skipValue closers budget t :=
  skipValue_code hq (not_opensComment hs t) ho hc he

theorem skipValue_end (h : c = ',' ∨ c = '\n') (t : Text) : skipValue [] (budget + 1) (c :: t) = t := by
  rcases h with rfl | rfl
  · rw [skipValue, if_neg (by decide), dif_neg (by simp [opensComment])]
    rfl
  · rw [skipValue, if_neg (by decide), dif_neg (by simp [opensComment])]
    rfl

theorem skipValue_brace (t : Text) : skipValue [] (budget + 1) (('}' : Code) :: t) = t := by
  rw [skipValue, if_neg (by decide), dif_neg (by simp [opensComment])]
  rfl

theorem skipValue_line {t : Text} (h : opensComment c t = true) (hl : Text.headIs '/' t = true) :
    skipValue [] (budget + 1) (c :: t) = c :: t := by
  rw [skipValue, if_neg (by simp [comment_unquoted h]), dif_pos h, if_pos (by rw [hl]; rfl)]

/-- A comment is passed with all the trivia behind it, unless it ends the value. -/
theorem skipValue_comment (budget : Nat) {t : Text} (h : opensComment c t = true)
    (hl : closers = [] → Text.headIs '/' t = false) :
    skipValue closers (budget + 1) (c :: t) =
      skipValue closers (budget + 1 - (t.length + 1 - (skipTrivia (c :: t)).length)) (skipTrivia (c :: t)) := by
  have hend : ¬ (closers.isEmpty && Text.headIs '/' t) = true := by
    rw [Bool.and_eq_true, List.isEmpty_iff]
    rintro ⟨he, ht⟩
    rw [hl he] at ht
    cases ht
  rw [skipValue, if_neg (by simp [comment_unquoted h]), dif_pos h, if_neg hend]

theorem skipValue_open (b : Bracket) (t : Text) :
    skipValue closers (budget + 1) (b.opening :: t) = skipValue (b.closing :: closers) budget t := by
  obtain ⟨hq, hs, ho⟩ := opening_inert b
  rw [skipValue, if_neg (by simp [hq]), dif_neg (not_opensComment hs t)]
  simp only [ho]

theorem skipValue_close (b : Bracket) (t : Text) :
    skipValue (b.closing :: closers) (budget + 1) (b.closing :: t) = skipValue closers budget t := by
  obtain ⟨hq, hs, ho⟩ := closing_inert b
  rw [skipValue, if_neg (by simp [hq]), dif_neg (not_opensComment hs t)]
  simp only [ho]
  rw [if_pos (by simp), List.tail_cons]

theorem skipValue_group (b : Bracket) (n : Nat) {inside t : Text}
    (hinside : ∀ n, skipValue (b.closing :: closers) (inside.length + n) (inside ++ b.closing :: t) =
      skipValue (b.closing :: closers) n (b.closing :: t)) :
    skipValue closers (inside.length + 2 + n) (b.opening :: (inside ++ b.closing :: t)) = skipValue closers n t := by
  have hsplit : inside.length + 2 + n = inside.length + (n + 1) + 1 := by omega
  rw [hsplit, skipValue_open, hinside, skipValue_close]

end

theorem ordinary_unbracketed {c : Code} (h : isOrdinary c = true) (b : Bracket) :
    c ≠ b.opening ∧ c ≠ b.closing := by
  simp only [isOrdinary, Bool.and_eq_true, List.all_eq_true, bne_iff_ne] at h
  exact h.2 b (by cases b <;> decide)

theorem ordinary_closerOf {c : Code} (h : isOrdinary c = true) : closerOf c = none := by
  have hr : c ≠ '(' := (ordinary_unbracketed h .round).1
  have hs : c ≠ '[' := (ordinary_unbracketed h .square).1
  have hc : c ≠ '{' := (ordinary_unbracketed h .curly).1
  rw [closerOf, if_neg (by simpa using hr), if_neg (by simpa using hs), if_neg (by simpa using hc)]

/-- Balanced source is passed within its own length, with the brackets open around it
still open. -/
theorem skipValue_pieces (p : Pieces) (bs : List Bracket) (hu : bs = [] → p.isUndivided = true) {budget : Nat}
    (hb : p.print.length ≤ budget) (t : Text) :
    skipValue (bs.map Bracket.closing) budget (p.print ++ t) =
      skipValue (bs.map Bracket.closing) (budget - p.print.length) t := by
  induction p generalizing bs budget t with
  | none => simp [Pieces.print]
  | code c h rest ih =>
    rw [Pieces.print, List.length_cons] at hb
    obtain ⟨b, rfl⟩ : ∃ b, budget = b + 1 := ⟨budget - 1, by omega⟩
    obtain ⟨hq, hs, -, hc⟩ := ordinary_inert h
    have hhead : (bs.map Bracket.closing).head? ≠ some c := by
      cases bs with
      | nil => simp
      | cons b bs => simpa using Ne.symm (ordinary_unbracketed h b).2
    have hend : bs.map Bracket.closing = [] → c ≠ ',' ∧ c ≠ '}' ∧ c ≠ '\n' := by
      intro e
      have := hu (List.map_eq_nil_iff.1 e)
      simp only [Pieces.isUndivided, Bool.and_eq_true, bne_iff_ne] at this
      exact ⟨this.1.1, hc, this.1.2⟩
    have hrest : bs = [] → rest.isUndivided = true := by
      intro e
      have := hu e
      simp only [Pieces.isUndivided, Bool.and_eq_true] at this
      exact this.2
    rw [Pieces.print, List.cons_append, skipValue_inert hq hs (ordinary_closerOf h) hhead hend,
      ih bs hrest (by omega)]
    simp
  | string s rest ih =>
    rw [Pieces.print, List.length_append] at hb
    rw [Pieces.print, List.append_assoc, skipValue_string s (by omega), ih bs hu (by omega), List.length_append,
      Nat.sub_sub]
  | group b inside rest ih₁ ih₂ =>
    rw [Pieces.print] at hb
    simp only [List.length_cons, List.length_append] at hb
    obtain ⟨n, rfl⟩ : ∃ n, budget = inside.print.length + 2 + n := ⟨budget - (inside.print.length + 2), by omega⟩
    -- with its own closer open, neither a comma nor a line feed ends the value
    have hinside (n : Nat) := @ih₁ (b :: bs) (fun e => absurd e (List.cons_ne_nil b bs)) _ (Nat.le_add_right _ n)
    rw [Pieces.print, List.cons_append, List.append_assoc, List.cons_append,
      skipValue_group b n fun n => by simpa using hinside n _, ih₂ bs hu (by omega)]
    congr 1
    simp
    omega

end MessageCatalog.Literal
