/-
  MessageCatalog.Proofs.Literal.Located — a literal found in a text, and cut out of it.

  What a cursor passes it passes by what stands there: trivia as a whole, a string up to what
  follows it, the inside of an object up to its closing brace. So the inside of one object
  brings the counter of braces to the same brace whatever stands behind it and however many
  braces are open in front of it (`closingBrace_inside`).

  Proved: the braces of a literal that is found are braces of the text in front of the bound;
  from the opening one the same literal is found under every bound behind the closing one and
  in the slice between them, and the slice gives the table that the text gives
  (`objectLiteralAt_cut`).
-/

import MessageCatalog.Literal.Position
import MessageCatalog.Proofs.Literal.Suffix
import MessageCatalog.Proofs.Text

namespace MessageCatalog.Literal

open Source

/-! ## What is passed -/

theorem afterLine_split {t : Text} (h : afterLine t ≠ []) :
    ∃ body, ('\n' : Code) ∉ body ∧ t = body ++ ('\n' : Code) :: afterLine t := by
  induction t with
  | nil => exact absurd rfl h
  | cons c r ih =>
    rw [afterLine] at h ⊢
    split
    · rename_i hc
      exact ⟨[], List.not_mem_nil, by rw [List.nil_append, beq_iff_eq.1 hc]⟩
    · rename_i hc
      rw [if_neg hc] at h
      obtain ⟨body, hbody, hr⟩ := ih h
      exact ⟨c :: body, List.not_mem_cons_of_ne_of_not_mem (fun e => hc (beq_iff_eq.2 e.symm)) hbody,
        congrArg (c :: ·) hr⟩

theorem afterBlock_split {t : Text} (h : afterBlock t ≠ []) :
    ∃ body, Text.contains [('*' : Code), ('/' : Code)] body = false ∧
      t = body ++ ('*' : Code) :: ('/' : Code) :: afterBlock t := by
  fun_induction afterBlock t with
  | case1 | case2 => exact absurd rfl h
  | case3 c d s hc =>
    simp only [Bool.and_eq_true, beq_iff_eq] at hc
    exact ⟨[], rfl, by rw [hc.1, hc.2, List.nil_append]⟩
  | case4 c d s hc ih =>
    obtain ⟨body, hbody, ht⟩ := ih h
    refine ⟨c :: body, ?_, congrArg (c :: ·) ht⟩
    rw [Text.contains, hbody, Bool.or_false]
    cases body with
    | nil => simp [List.isPrefixOf]
    | cons e body =>
      obtain ⟨rfl, -⟩ := List.cons.inj ht
      simp only [Bool.and_eq_true, beq_iff_eq, not_and] at hc
      simpa [List.isPrefixOf, eq_comm (a := 42), eq_comm (a := 47)] using hc

/-- What is skipped in front of anything is trivia. -/
theorem skipTrivia_split {t : Text} (h : skipTrivia t ≠ []) : ∃ g : Gap, t = g.print ++ skipTrivia t := by
  fun_induction skipTrivia t with
  | case1 => exact absurd rfl h
  | case2 c r hc ih =>
    obtain ⟨g, hg⟩ := ih h
    exact ⟨.blank c hc :: g, congrArg (c :: ·) hg⟩
  | case3 c r _ hc hline ih =>
    obtain ⟨g, hg⟩ := ih h
    obtain ⟨rfl, -⟩ : c = '/' ∧ _ := by simpa [opensComment] using hc
    obtain ⟨s, rfl⟩ := Text.headIs_cons hline
    obtain ⟨body, hbody, hs⟩ := afterLine_split (t := s) fun e => h (by rw [List.tail_cons, e, skipTrivia_nil])
    refine ⟨.line body hbody :: g, ?_⟩
    rw [List.tail_cons] at hg ⊢
    rw [Gap.print, List.flatMap_cons, List.append_assoc, ← Gap.print, ← hg]
    simpa [Trivium.print] using hs
  | case4 c r _ hc hline ih =>
    obtain ⟨g, hg⟩ := ih h
    simp only [opensComment, hline, Bool.false_or, Bool.and_eq_true, beq_iff_eq] at hc
    obtain ⟨rfl, hblock⟩ := hc
    obtain ⟨s, rfl⟩ := Text.headIs_cons hblock
    obtain ⟨body, hbody, hs⟩ := afterBlock_split (t := s) fun e => h (by rw [List.tail_cons, e, skipTrivia_nil])
    refine ⟨.block body hbody :: g, ?_⟩
    rw [List.tail_cons] at hg ⊢
    rw [Gap.print, List.flatMap_cons, List.append_assoc, ← Gap.print, ← hg]
    simpa [Trivium.print] using hs
  | case5 c r => exact ⟨[], rfl⟩

/-- What is skipped of a string depends on what comes next at most, not on what is behind that. -/
theorem skipString_split {q : Code} {t : Text} (h : skipString q t ≠ []) :
    ∃ taken, t = taken ++ skipString q t ∧
      ∀ {u : Text}, u.head? = (skipString q t).head? → skipString q (taken ++ u) = u := by
  fun_induction skipString q t with
  | case1 | case2 => exact absurd rfl h
  | case3 b hb d r ih =>
    obtain ⟨taken, hr, htaken⟩ := ih h
    obtain rfl := beq_iff_eq.1 hb
    exact ⟨_ :: d :: taken, congrArg (_ :: d :: ·) hr, fun hu => (skipString_escape q d _).trans (htaken hu)⟩
  | case4 b r hb hq =>
    obtain rfl := beq_iff_eq.1 hq
    exact ⟨[b], rfl, fun _ => skipString_close (by simpa using hb) _⟩
  | case5 b r hb hq hcut =>
    refine ⟨[], rfl, fun {u} hu => ?_⟩
    obtain ⟨s, rfl⟩ := Text.headIs_cons (c := b) (t := u) (by rw [Text.headIs, hu]; simp)
    rw [List.nil_append, skipString.eq_def]
    simp only [if_neg hb, if_neg hq, if_pos hcut]
  | case6 b r hb hq hcut ih =>
    obtain ⟨taken, hr, htaken⟩ := ih h
    refine ⟨b :: taken, congrArg (b :: ·) hr, fun {u} hu => ?_⟩
    rw [List.cons_append, skipString.eq_def]
    simp only [if_neg hb, if_neg hq, if_neg hcut, htaken hu]

/-! ## The inside of an object -/

theorem head?_closed (inside after after' : Text) :
    (inside ++ ('}' : Code) :: after).head? = (inside ++ ('}' : Code) :: after').head? := by
  cases inside <;> rfl

/-- What leads the counter of braces to a brace leads it there whatever stands behind that brace,
and on to it with more braces open. -/
theorem closingBrace_inside {depth : Int} (hd : 1 ≤ depth) {t s : Text} (h : closingBrace depth t = some s) :
    ∃ inside after, t = inside ++ ('}' : Code) :: after ∧ s = ('}' : Code) :: after ∧
      ∀ {more : Int}, 0 ≤ more → ∀ u, closingBrace (depth + more) (inside ++ ('}' : Code) :: u) =
        closingBrace (1 + more) (('}' : Code) :: u) := by
  -- every step goes by what it passes and by what comes next; the brace at the latest comes next
  fun_induction closingBrace depth t with
  | case1 => cases h
  | case2 depth c r hq ih =>
    obtain ⟨inside, after, hr, hs, hinside⟩ := ih hd h
    obtain ⟨taken, htaken, hskip⟩ := skipString_split (q := c) (t := r) (by simp [hr])
    refine ⟨c :: (taken ++ inside), after, ?_, hs, fun hmore u => ?_⟩
    · rw [hr] at htaken
      rw [htaken, List.cons_append, List.append_assoc]
    · rw [List.cons_append, List.append_assoc, closingBrace_quoted hq (hskip (hr ▸ head?_closed inside u after)),
        hinside hmore]
  | case3 depth c r _ hc ih =>
    obtain ⟨inside, after, hr, hs, hinside⟩ := ih hd h
    obtain ⟨g, hg⟩ := skipTrivia_split (t := c :: r) (by simp [hr])
    refine ⟨g.print ++ inside, after, ?_, hs, fun hmore u => ?_⟩
    · rw [hr] at hg
      rw [hg, List.append_assoc]
    · rw [List.append_assoc, closingBrace_gap, hinside hmore]
  | case5 c r _ _ _ hc =>
    obtain rfl := beq_iff_eq.1 hc
    exact ⟨[], r, rfl, (Option.some.inj h).symm, fun _ u => rfl⟩
  | case4 depth c r _ _ hc ih =>
    obtain ⟨inside, after, rfl, hs, hinside⟩ := ih (by omega) h
    obtain rfl := beq_iff_eq.1 hc
    refine ⟨_ :: inside, after, rfl, hs, fun {more} hmore u => ?_⟩
    rw [List.cons_append, closingBrace_open, Int.add_right_comm, hinside hmore]
  | case6 depth c r _ _ _ hc hone ih =>
    obtain ⟨inside, after, rfl, hs, hinside⟩ := ih (by omega) h
    obtain rfl := beq_iff_eq.1 hc
    refine ⟨_ :: inside, after, rfl, hs, fun {more} hmore u => ?_⟩
    have hless : depth + more - 1 = depth - 1 + more := by omega
    rw [List.cons_append, closingBrace_close, if_neg (by omega), hless, hinside hmore]
  | case7 depth c r hq hcomment ho hc ih =>
    obtain ⟨inside, after, rfl, hs, hinside⟩ := ih hd h
    refine ⟨c :: inside, after, rfl, hs, fun hmore u => ?_⟩
    have hcomment' : ¬ opensComment c (inside ++ ('}' : Code) :: u) = true := by
      rw [opensComment, Text.headIs, Text.headIs] at hcomment ⊢
      rwa [head?_closed inside u after]
    rw [List.cons_append, closingBrace_code (by simpa using hq) hcomment' (by simpa using ho) (by simpa using hc),
      hinside hmore]

/-- What can stand between the braces of an object: the counter comes from the one to the other,
whatever is open around them and whatever follows. -/
def IsInside (inside : Text) : Prop :=
  ∀ {depth : Int}, 1 ≤ depth → ∀ after, closingBrace depth (inside ++ ('}' : Code) :: after) =
    closingBrace depth (('}' : Code) :: after)

theorem IsInside.closes {inside : Text} (h : IsInside inside) (after : Text) :
    closingBrace 1 (inside ++ ('}' : Code) :: after) = some (('}' : Code) :: after) := by
  rw [h (Int.le_refl 1), closingBrace_close, if_pos rfl]

theorem isInside_of_closes {t s : Text} (h : closingBrace 0 (('{' : Code) :: t) = some s) :
    ∃ inside after, t = inside ++ ('}' : Code) :: after ∧ s = ('}' : Code) :: after ∧ IsInside inside := by
  rw [closingBrace_open, Int.zero_add] at h
  obtain ⟨inside, after, ht, hs, hinside⟩ := closingBrace_inside (Int.le_refl 1) h
  refine ⟨inside, after, ht, hs, fun {depth} hd u => ?_⟩
  obtain ⟨more, rfl⟩ : ∃ more, depth = 1 + more := ⟨depth - 1, by omega⟩
  exact hinside (by omega) u

theorem objectLiteral_split {t : Text} {b : Braced} (h : objectLiteral t = some b) :
    ∃ before inside after, t = before ++ ('{' : Code) :: (inside ++ ('}' : Code) :: after) ∧
      b = ⟨('{' : Code) :: (inside ++ ('}' : Code) :: after), ('}' : Code) :: after⟩ ∧ IsInside inside := by
  obtain ⟨before, hbefore⟩ := skipWrappers_suffix t
  unfold objectLiteral at h
  split at h
  · cases h
  · rename_i c r e
    split at h
    · rename_i hc
      obtain ⟨s, hs, rfl⟩ := Option.map_eq_some_iff.1 h
      obtain rfl := beq_iff_eq.1 hc
      obtain ⟨inside, after, rfl, rfl, hinside⟩ := isInside_of_closes hs
      exact ⟨before, inside, after, by rw [← hbefore, e], rfl, hinside⟩
    · cases h

/-! ## Positions -/

section

variable {inside : Text} (hinside : IsInside inside)

include hinside

theorem objectLiteral_inside (after : Text) :
    objectLiteral (('{' : Code) :: (inside ++ ('}' : Code) :: after)) =
      some ⟨('{' : Code) :: (inside ++ ('}' : Code) :: after), ('}' : Code) :: after⟩ :=
  objectLiteral_braced (hinside.closes after) []

/-- A literal is found from its opening brace under every bound behind its closing one. -/
theorem objectLiteralAt_open (before after : Text) {stop : Nat} (hclose : before.length + 1 + inside.length < stop)
    (hstop : stop ≤ (before ++ ('{' : Code) :: (inside ++ ('}' : Code) :: after)).length) :
    objectLiteralAt (before ++ ('{' : Code) :: (inside ++ ('}' : Code) :: after)) before.length stop =
      some (before.length, before.length + 1 + inside.length) := by
  obtain ⟨n, rfl⟩ : ∃ n, stop = before.length + (inside.length + (n + 1) + 1) :=
    ⟨stop - before.length - inside.length - 2, by omega⟩
  have hn : n ≤ after.length := by simp at hstop; omega
  have htake : (('{' : Code) :: (inside ++ ('}' : Code) :: after)).take (inside.length + (n + 1) + 1) =
      ('{' : Code) :: (inside ++ ('}' : Code) :: after.take n) := by
    rw [List.take_succ_cons, List.take_length_add_append, List.take_succ_cons]
  rw [objectLiteralAt, Text.window_append, htake, objectLiteral_inside hinside, Option.map_some, positionOf, positionOf]
  simp [Nat.min_eq_left hn]
  omega

theorem emissions_slice (limits : Limits) (base : Text) :
    emissions limits base (('{' : Code) :: (inside ++ [('}' : Code)])) = scan limits base 0 inside :=
  emissions_braced (hinside.closes []) base []

end

theorem window_braced (before inside after : Text) :
    Text.window (before ++ ('{' : Code) :: (inside ++ ('}' : Code) :: after)) before.length
      (before.length + 1 + inside.length + 1) = ('{' : Code) :: (inside ++ [('}' : Code)]) := by
  have hlast : before.length + 1 + inside.length + 1 = before.length + (inside.length + 1 + 1) := by omega
  rw [hlast, Text.window_append, List.take_succ_cons, List.take_length_add_append, List.take_succ_cons, List.take_zero]

/-- A literal that is found stands in the text with its braces, in front of the bound. -/
theorem objectLiteralAt_split {t : Text} {start stop o c : Nat} (hstop : stop ≤ t.length)
    (h : objectLiteralAt t start stop = some (o, c)) :
    ∃ before inside after, t = before ++ ('{' : Code) :: (inside ++ ('}' : Code) :: after) ∧ IsInside inside ∧
      before.length = o ∧ before.length + 1 + inside.length = c ∧ start ≤ o ∧ c < stop ∧
      ∀ limits base, emissions limits base (t.window start stop) = scan limits base 0 inside := by
  obtain ⟨b, hb, hpositions⟩ := Option.map_eq_some_iff.1 h
  obtain ⟨before, inside, after, hwindow, rfl, hinside⟩ := objectLiteral_split hb
  have hlength : stop - start = before.length + (inside.length + (after.length + 1) + 1) := by
    have hcount := congrArg List.length hwindow
    rw [Text.length_window hstop] at hcount
    simpa using hcount
  have horder : start ≤ stop := by omega
  have ht := Text.window_split t horder
  rw [hwindow] at ht
  obtain ⟨rfl, rfl⟩ := Prod.mk.inj hpositions
  simp only [positionOf, List.length_cons, List.length_append]
  refine ⟨t.take start ++ before, inside, after ++ t.drop stop, by simpa using ht, hinside, ?_, ?_, ?_, ?_, ?_⟩
  · rw [List.length_append, List.length_take]
    omega
  · rw [List.length_append, List.length_take]
    omega
  · omega
  · omega
  · intro limits base
    rw [emissions, hb]
    simp only [inside_braced]

theorem flatten_congr {limits : Limits} {base t u : Text} (ht : t.length ≤ limits.maxContentLength)
    (hu : u.length ≤ limits.maxContentLength) (h : emissions limits base t = emissions limits base u) :
    flatten limits base t = flatten limits base u := by
  rw [flatten, flatten, if_neg (Nat.not_lt.2 ht), if_neg (Nat.not_lt.2 hu), h]

/-- Where a literal is found, from where and up to where it is looked for does not matter, nor
what stands around it. -/
theorem objectLiteralAt_cut {t : Text} {start stop o c : Nat} (hstop : stop ≤ t.length)
    (h : objectLiteralAt t start stop = some (o, c)) :
    (start ≤ o ∧ o < c ∧ c < stop) ∧
      (t[o]? = some ('{' : Code) ∧ t[c]? = some ('}' : Code)) ∧
      (∀ bound, c < bound → bound ≤ t.length → objectLiteralAt t o bound = some (o, c)) ∧
      objectLiteralAt (t.window o (c + 1)) 0 (t.window o (c + 1)).length = some (0, c - o) ∧
      ∀ limits base, (t.window start stop).length ≤ limits.maxContentLength →
        (∃ f, (flatten limits base (t.window start stop)).run.value = .ok f) ∧
          flatten limits base (t.window start stop) = flatten limits base (t.window o (c + 1)) := by
  obtain ⟨before, inside, after, rfl, hinside, rfl, rfl, hstart, hclose, hemitted⟩ := objectLiteralAt_split hstop h
  have hshort : (('{' : Code) :: (inside ++ [('}' : Code)])).length ≤
      (Text.window (before ++ ('{' : Code) :: (inside ++ ('}' : Code) :: after)) start stop).length := by
    rw [Text.length_window hstop, List.length_cons, List.length_append, List.length_singleton]
    omega
  rw [window_braced]
  refine ⟨⟨hstart, by omega, hclose⟩, ⟨by simp, ?_⟩, fun bound hlow hhigh => ?_, ?_, fun limits base hlen => ⟨?_, ?_⟩⟩
  · rw [Nat.add_assoc, List.getElem?_append_right (Nat.le_add_right _ _)]
    simp [Nat.add_comm 1]
  · exact objectLiteralAt_open hinside before after hlow hhigh
  · have hend : (0 + 1) + inside.length < (('{' : Code) :: (inside ++ [('}' : Code)])).length := by simp; omega
    have hfound := objectLiteralAt_open hinside [] [] hend (Nat.le_refl _)
    have hlength : before.length + 1 + inside.length - before.length = 1 + inside.length := by omega
    rw [hlength]
    simpa using hfound
  · exact ⟨_, flatten_run base hlen⟩
  · refine flatten_congr hlen (Nat.le_trans hshort hlen) ?_
    rw [hemitted, emissions_slice hinside]

def Source.asserted : Text := "= (<T>\x7ba: '\x7d', /*\x7b*/ b: \x7bc: \"d\"\x7d\x7d) as const; e = \x7b'"

theorem objectLiteralAt_cut_sample :
    let slice := Source.asserted.window 6 33
    (51 ≤ Source.asserted.length ∧ objectLiteralAt Source.asserted 1 51 = some (6, 32)) ∧
      ((1 ≤ 6 ∧ 6 < 32 ∧ 32 < 51) ∧ Source.asserted[6]? = some ('{' : Code) ∧ Source.asserted[32]? = some ('}' : Code)) ∧
      (33 ≤ Source.asserted.length ∧ objectLiteralAt Source.asserted 6 33 = some (6, 32)) ∧
      objectLiteralAt slice 0 slice.length = some (0, 26) ∧
      (Source.asserted.window 1 51).length ≤ ({} : Limits).maxContentLength ∧
      flatten {} "p" (Source.asserted.window 1 51) = flatten {} "p" slice := by
  have hstop : 51 ≤ Source.asserted.length := by decide +kernel
  have hbound : 33 ≤ Source.asserted.length := by decide +kernel
  have hfound : objectLiteralAt Source.asserted 1 51 = some (6, 32) := by decide +kernel
  have hlen : (Source.asserted.window 1 51).length ≤ ({} : Limits).maxContentLength := by decide +kernel
  obtain ⟨horder, hbraces, hbounds, hslice, hflatten⟩ := objectLiteralAt_cut hstop hfound
  exact ⟨⟨hstop, hfound⟩, ⟨horder, hbraces⟩, ⟨hbound, hbounds 33 (by decide) hbound⟩, hslice, hlen,
    (hflatten {} "p" hlen).2⟩

end MessageCatalog.Literal
