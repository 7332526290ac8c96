/-
  MessageCatalog.Proofs.Literal.Walk.Scan — the scan and the literal by positions.
-/

import MessageCatalog.Proofs.Literal.Walk.Values

namespace MessageCatalog.Literal.Walk

variable {t : Text} {stop : Nat}

/-! ## A round of the scan -/

/-- A round finds what the front of the rest holds. -/
inductive Finds (limits : Limits) (t : Text) (stop : Nat) (s : Text) : Round → Prop
  | nothing (hfront : front limits s = .nothing) : Finds limits t stop s .finished
  | noise {rest : Text} {next : Nat} (hfront : front limits s = .noise rest) (hrest : Stands t stop rest next) :
      Finds limits t stop s (.resumed next)
  | unclosed {name r : Text} (hfront : front limits s = .property name '{' r)
      (hclose : Literal.closingBrace 1 r = none) : Finds limits t stop s .finished
  | object {name r close : Text} {opening closing : Nat} (hfront : front limits s = .property name '{' r)
      (hopening : Stands t stop (('{' : Code) :: r) opening) (hclose : Literal.closingBrace 1 r = some close)
      (hclosing : Stands t stop close closing) : Finds limits t stop s (.object name opening closing)
  | text {name r : Text} {q : Code} {next : Nat} (hfront : front limits s = .property name q r)
      (hq : isQuote q = true)
      (hrest : Stands t stop (Literal.skipValue [] limits.maxValueLength (Literal.readValue limits (q :: r)).rest) next) :
      Finds limits t stop s (.value name (Literal.readValue limits (q :: r)).value next)
  | other {name r : Text} {c : Code} {next : Nat} (hfront : front limits s = .property name c r)
      (hc : ¬ (c == '{') = true) (hq : ¬ isQuote c = true)
      (hrest : Stands t stop (Literal.skipValue [] limits.maxValueLength (c :: r)) next) :
      Finds limits t stop s (.value name none next)

theorem property_finds (hstop : stop ≤ t.length) (limits : Limits) {s name : Text} {c : Code} {r : Text}
    (hfront : front limits s = .property name c r) {i : Nat} (h : Stands t stop (c :: r) i) :
    ∃ found, property t limits stop name i = some found ∧ Finds limits t stop s found := by
  unfold property
  rw [if_neg (Nat.not_le_of_lt h.cons.1), h.get]
  simp only [Option.bind_eq_bind, Option.bind_some]
  by_cases hbrace : c = ('{' : Code)
  · subst hbrace
    obtain ⟨found, hfound, hclose⟩ := closingBrace_stands hstop 0 h
    rw [closingBrace_open, Int.zero_add] at hclose
    simp only [beq_self_eq_true, if_true, hfound, Option.bind_some]
    rcases hclose with ⟨rfl, hnone⟩ | ⟨closing, close, rfl, hsome, hclosing⟩
    · exact ⟨_, rfl, .unclosed hfront hnone⟩
    · exact ⟨_, rfl, .object hfront h hsome hclosing⟩
  · rw [if_neg (by simpa using hbrace)]
    by_cases hq : isQuote c = true
    · obtain ⟨⟨text, next⟩, hread, rfl, hrest⟩ := readValue_reads hstop limits h
      obtain ⟨p, hp, hskipped⟩ := skipValue_stands hstop limits hrest
      simp only [hq, if_true, hread, Option.bind_some, hp]
      exact ⟨_, rfl, .text hfront hq hskipped⟩
    · obtain ⟨p, hp, hskipped⟩ := skipValue_stands hstop limits h
      simp only [hq, Bool.false_eq_true, if_false, hp, Option.bind_some]
      exact ⟨_, rfl, .other hfront (by simpa using hbrace) hq hskipped⟩

theorem front_named (limits : Limits) {s r : Text} {c : Code} (hskip : Literal.skipTrivia s = c :: r)
    (hstarts : startsName c = true) :
    front limits s =
      match (readName limits c r).name with
      | none => .noise (readName limits c r).rest
      | some name =>
        match Literal.skipTrivia (readName limits c r).rest with
        | [] => .noise (readName limits c r).rest
        | d :: u =>
          if d == ':' then
            match Literal.skipTrivia u with
            | [] => .nothing
            | e :: v => .property name e v
          else .noise (readName limits c r).rest := by
  rw [front, hskip]
  exact if_pos hstarts

theorem named_finds (hstop : stop ≤ t.length) (limits : Limits) {s name rest : Text}
    (hfront : front limits s =
      match Literal.skipTrivia rest with
      | [] => .noise rest
      | d :: u =>
        if d == ':' then
          match Literal.skipTrivia u with
          | [] => .nothing
          | e :: v => .property name e v
        else .noise rest)
    {i : Nat} (h : Stands t stop rest i) :
    ∃ found, named t limits stop name i = some found ∧ Finds limits t stop s found := by
  obtain ⟨j, hj, hcolon⟩ := skipTrivia_stands hstop h
  unfold named
  rw [hj]
  simp only [Option.bind_eq_bind, Option.bind_some, looksAt_headIs hstop hcolon]
  cases hnamed : Literal.skipTrivia rest with
  | nil => exact ⟨_, rfl, .noise (by rw [hfront, hnamed]) h⟩
  | cons d u =>
    rw [hnamed] at hcolon hfront
    obtain ⟨k, hk, hvalue⟩ := skipTrivia_stands hstop hcolon.cons.2.2
    simp only [Text.headIs, List.head?_cons, Option.some_beq_some] at hfront ⊢
    by_cases hd : d = (':' : Code)
    · subst hd
      simp only [beq_self_eq_true, Bool.not_true, Bool.false_eq_true, if_false, if_true, hk, Option.bind_some] at hfront ⊢
      cases hbehind : Literal.skipTrivia u with
      | nil =>
        rw [hbehind] at hvalue
        unfold property
        rw [if_pos (hvalue.stop_le hstop)]
        exact ⟨_, rfl, .nothing (by rw [hfront, hbehind])⟩
      | cons e v =>
        rw [hbehind] at hvalue
        exact property_finds hstop limits (by rw [hfront, hbehind]) hvalue
    · simp only [beq_false_of_ne hd, Bool.not_false, if_true, Bool.false_eq_true, if_false] at hfront ⊢
      exact ⟨_, rfl, .noise hfront h⟩

theorem round_finds (hstop : stop ≤ t.length) (limits : Limits) {s : Text} {i : Nat} (h : Stands t stop s i) :
    ∃ found, round t limits stop i = some found ∧ Finds limits t stop s found := by
  obtain ⟨p, hp, hs⟩ := skipTrivia_stands hstop h
  unfold round
  rw [hp]
  simp only [Option.bind_eq_bind, Option.bind_some]
  cases hskip : Literal.skipTrivia s with
  | nil =>
    rw [hskip] at hs
    rw [if_pos (hs.stop_le hstop)]
    exact ⟨_, rfl, .nothing (by rw [front, hskip])⟩
  | cons c r =>
    rw [hskip] at hs
    rw [if_neg (Nat.not_le_of_lt hs.cons.1), hs.get, Option.bind_some]
    cases hstarts : startsName c with
    | false => exact ⟨_, rfl, .noise (by rw [front, hskip]; simp [hstarts]) hs.cons.2.2⟩
    | true =>
      obtain ⟨⟨name, e⟩, hread, hname, hrest⟩ := propertyName_reads hstop limits hs
      have hfront := front_named limits hskip hstarts
      rw [← show name = (readName limits c r).name from hname] at hfront
      simp only [Bool.not_true, Bool.false_eq_true, if_false, hread, Option.bind_some]
      cases name with
      | none => exact ⟨_, rfl, .noise hfront hrest⟩
      | some name => exact named_finds hstop limits hfront hrest

/-- Whatever a round finds, what comes next is further on, and an object has less between its braces
than there was left. -/
def Round.Advances (stop i : Nat) : Round → Prop
  | .finished => True
  | .resumed next => i < next ∧ next ≤ stop
  | .object _ opening closing => i < opening ∧ opening < closing ∧ closing < stop
  | .value _ _ next => i < next ∧ next ≤ stop

theorem Finds.advances (hstop : stop ≤ t.length) {limits : Limits} {s : Text} {i : Nat} {found : Round}
    (h : Stands t stop s i) (hfinds : Finds limits t stop s found) : found.Advances stop i := by
  have hs := h.length hstop
  cases hfinds with
  | nothing | unclosed => trivial
  | noise hfront hrest =>
    have hlt := length_front_noise_lt hfront
    have hlen := hrest.length hstop
    exact ⟨by omega, hrest.le⟩
  | object hfront hopening hclose hclosing =>
    have hlt := length_front_property_lt hfront
    have hle := length_closingBrace_le hclose
    have hopen := hopening.length hstop
    have hlen := hclosing.length hstop
    obtain ⟨-, u, rfl⟩ := closingBrace_suffix hclose
    rw [List.length_cons] at hopen
    exact ⟨by omega, by omega, hclosing.cons.1⟩
  | text hfront hq hrest =>
    rename_i name r q next
    have hlt := length_front_property_lt hfront
    have hread := length_readValue_lt limits r hq
    have hskip := length_skipValue_le [] limits.maxValueLength (Literal.readValue limits (q :: r)).rest
    have hlen := hrest.length hstop
    rw [List.length_cons] at hread
    exact ⟨by omega, hrest.le⟩
  | other hfront hc hq hrest =>
    rename_i name r c next
    have hlt := length_front_property_lt hfront
    have hskip := length_skipValue_le [] limits.maxValueLength (c :: r)
    have hlen := hrest.length hstop
    rw [List.length_cons] at hskip
    exact ⟨by omega, hrest.le⟩

/-! ## The scan -/

theorem scan_far (limits : Limits) (base : Text) (depth : Nat) {i : Nat} (h : stop ≤ i) :
    scan t limits base depth stop i = some [] := by
  rw [scan, dif_neg (by omega)]
  rfl

/-- By induction on how far it is to the end: every round gets on, and what is between braces ends
sooner. -/
theorem scan_stands (limits : Limits) (base : Text) (depth : Nat) {stop : Nat} (hstop : stop ≤ t.length) {s : Text}
    {i : Nat} (h : Stands t stop s i) :
    scan t limits base depth stop i = some (Literal.scan limits base depth s) := by
  rcases Nat.lt_or_ge i stop with hlt | hge
  · obtain ⟨found, hround, hfinds⟩ := round_finds hstop limits h
    have hadvances := hfinds.advances hstop h
    rw [scan, dif_pos hlt, hround, scan_eq]
    cases hfinds with
    | nothing hfront =>
      rw [hfront]
      rfl
    | noise hfront hrest =>
      rw [hfront]
      have hlt := hadvances.1
      simp only [Option.bind_eq_bind, Option.bind_some, dif_pos hlt]
      exact scan_stands limits base depth hstop hrest
    | unclosed hfront hclose =>
      simp only [hfront, scanProperty, beq_self_eq_true, if_true, hclose]
      rfl
    | object hfront hopening hclose hclosing =>
      rename_i name r close opening closing
      obtain ⟨hopen, hinside, hend⟩ := hadvances
      have hinner := scan_stands limits (Key.under base name) (depth + 1) (Nat.le_of_lt (Nat.lt_of_lt_of_le hend hstop))
        ⟨hinside, hopening.cons.2.2.upTo hstop hclosing hinside⟩
      obtain ⟨-, u, rfl⟩ := closingBrace_suffix hclose
      have hmore := scan_stands limits base depth hstop hclosing.cons.2.2
      have hsooner : i < closing + 1 ∧ closing - (opening + 1) < stop - i := by omega
      simp only [hfront, scanProperty, beq_self_eq_true, if_true, hclose, hmore, List.tail_cons, Option.bind_eq_bind,
        Option.bind_some, dif_pos hsooner]
      split
      · rfl
      · rw [hinner]
        rfl
    | text hfront hq hrest =>
      have hlt := hadvances.1
      have hmore := scan_stands limits base depth hstop hrest
      have hbrace := beq_false_of_ne (quote_ne hq (c := '{') rfl)
      simp only [hfront, scanProperty, hbrace, Bool.false_eq_true, if_false, if_pos hq, Option.bind_eq_bind,
        Option.bind_some, dif_pos hlt, hmore]
      rfl
    | other hfront hc hq hrest =>
      have hlt := hadvances.1
      have hmore := scan_stands limits base depth hstop hrest
      simp only [hfront, scanProperty, if_neg hc, if_neg hq, Option.bind_eq_bind, Option.bind_some, dif_pos hlt, hmore]
      rfl
  · obtain rfl : s = [] := by
      have hlen := h.length hstop
      exact List.eq_nil_of_length_eq_zero (by omega)
    rw [scan_far limits base depth hge, scan_blank skipTrivia_nil]
termination_by stop - i

/-! ## The literal -/

theorem closingAngle_far (depth : Nat) {i : Nat} (h : stop ≤ i) : closingAngle t stop depth i = some i := by
  rw [closingAngle, dif_neg (by omega)]
  rfl

theorem closingAngle_cons (depth : Nat) {c : Code} {r : Text} {i : Nat} (h : Stands t stop (c :: r) i) :
    closingAngle t stop depth i =
      if c == '<' then closingAngle t stop (depth + 1) (i + 1)
      else if c == '>' then if depth = 1 then some i else closingAngle t stop (depth - 1) (i + 1)
      else closingAngle t stop depth (i + 1) := by
  rw [closingAngle, dif_pos h.cons.1, h.get]
  rfl

theorem closingAngle_stands (hstop : stop ≤ t.length) (depth : Nat) {s : Text} {i : Nat} (h : Stands t stop s i) :
    ∃ p, closingAngle t stop depth i = some p ∧
      (Stands t stop (afterAngles depth s) (p + 1) ∨ p = stop ∧ afterAngles depth s = []) := by
  fun_induction afterAngles depth s generalizing i with
  | case1 depth =>
    have hend := h.stop_le hstop
    exact ⟨i, closingAngle_far depth hend, .inr ⟨by have := h.le; omega, rfl⟩⟩
  | case2 depth c r hc ih =>
    rw [closingAngle_cons depth h, if_pos hc]
    exact ih h.cons.2.2
  | case3 c r hc hclose =>
    rw [closingAngle_cons 1 h, if_neg hc, if_pos hclose, if_pos rfl]
    exact ⟨i, rfl, .inl h.cons.2.2⟩
  | case4 depth c r hc hclose hdepth ih =>
    rw [closingAngle_cons depth h, if_neg hc, if_pos hclose, if_neg hdepth]
    exact ih h.cons.2.2
  | case5 depth c r hc hclose ih =>
    rw [closingAngle_cons depth h, if_neg hc, if_neg hclose]
    exact ih h.cons.2.2

theorem passWrappers_end {i : Nat} (h : stop ≤ i) : passWrappers t stop i = some stop := by
  rw [passWrappers, dif_neg (by omega)]
  rfl

theorem passWrappers_cons {c : Code} {r : Text} {i : Nat} (h : Stands t stop (c :: r) i) :
    passWrappers t stop i =
      if c == '(' then
        (skipTrivia t stop (i + 1)).bind fun next => if i < next then passWrappers t stop next else none
      else if c == '<' then
        (closingAngle t stop 0 i).bind fun angle =>
          (skipTrivia t stop (angle + 1)).bind fun next => if i < next then passWrappers t stop next else none
      else some i := by
  rw [passWrappers, dif_pos h.cons.1, h.get]
  rfl

theorem passWrappers_stands (hstop : stop ≤ t.length) {s : Text} {i : Nat} (h : Stands t stop s i) :
    ∃ p, passWrappers t stop i = some p ∧ Stands t stop (Literal.skipWrappers.go s) p := by
  fun_induction Literal.skipWrappers.go s generalizing i with
  | case1 => exact ⟨stop, passWrappers_end (h.stop_le hstop), Stands.nil t stop⟩
  | case2 c r hc ih =>
    obtain ⟨p, hp, hrest⟩ := skipTrivia_stands hstop h.cons.2.2
    have hlt : i < p := h.cons.2.2.le_of_length hstop hrest (length_skipTrivia_le r)
    rw [passWrappers_cons h, if_pos hc, hp, Option.bind_some, if_pos hlt]
    exact ih hrest
  | case3 c r hc hangle ih =>
    obtain ⟨angle, hfound, hbehind⟩ := closingAngle_stands hstop 1 h.cons.2.2
    rw [passWrappers_cons h, if_neg hc, if_pos hangle, closingAngle_cons 0 h, if_pos hangle, hfound, Option.bind_some]
    rcases hbehind with hbehind | ⟨rfl, hnone⟩
    · obtain ⟨p, hp, hrest⟩ := skipTrivia_stands hstop hbehind
      have hlt : i < p := h.cons.2.2.le_of_length hstop hrest
        (Nat.le_trans (length_skipTrivia_le _) (length_afterAngles_le 1 r))
      rw [hp, Option.bind_some, if_pos hlt]
      exact ih hrest
    · -- the loop passes the end by one
      rw [hnone, skipTrivia_nil] at ih ⊢
      rw [skipTrivia_end (Nat.le_succ angle), Option.bind_some, if_pos (Nat.lt_succ_of_lt h.cons.1),
        passWrappers_end (Nat.le_succ angle)]
      exact ⟨angle, rfl, by rw [Literal.skipWrappers.go.eq_def]; exact Stands.nil t angle⟩
  | case4 c r hc hangle =>
    rw [passWrappers_cons h, if_neg hc, if_neg hangle]
    exact ⟨i, rfl, h⟩

theorem skipWrappers_stands (hstop : stop ≤ t.length) {s : Text} {i : Nat} (h : Stands t stop s i) :
    ∃ p, skipWrappers t stop i = some p ∧ Stands t stop (Literal.skipWrappers s) p := by
  obtain ⟨p, hp, hrest⟩ := skipTrivia_stands hstop h
  unfold skipWrappers Literal.skipWrappers
  rw [hp]
  exact passWrappers_stands hstop hrest

theorem objectLiteral_stands (hstop : stop ≤ t.length) {s : Text} {i : Nat} (h : Stands t stop s i) :
    ∃ found, objectLiteral t stop i = some found ∧
      (found = none ∧ Literal.objectLiteral s = none ∨
        ∃ opening closing b, found = some (opening, closing) ∧ Literal.objectLiteral s = some b ∧
          opening < closing ∧ Stands t stop b.fromOpen opening ∧ Stands t stop b.fromClose closing) := by
  obtain ⟨p, hp, hrest⟩ := skipWrappers_stands hstop h
  unfold objectLiteral Literal.objectLiteral
  rw [hp]
  simp only [Option.bind_eq_bind, Option.bind_some]
  cases hskip : Literal.skipWrappers s with
  | nil =>
    rw [hskip] at hrest
    rw [if_pos (hrest.stop_le hstop)]
    exact ⟨none, rfl, .inl ⟨rfl, rfl⟩⟩
  | cons c r =>
    rw [hskip] at hrest
    rw [if_neg (Nat.not_le_of_lt hrest.cons.1), hrest.get, Option.bind_some]
    by_cases hc : c = ('{' : Code)
    · subst hc
      obtain ⟨found, hfound, hclose⟩ := closingBrace_stands hstop 0 hrest
      simp only [bne_self_eq_false, Bool.false_eq_true, if_false, beq_self_eq_true, if_true, hfound, Option.bind_some]
      rcases hclose with ⟨rfl, hnone⟩ | ⟨closing, close, rfl, hsome, hclosing⟩
      · rw [hnone]
        exact ⟨none, rfl, .inl ⟨rfl, rfl⟩⟩
      · have hle : close.length ≤ r.length := by
          rw [closingBrace_open] at hsome
          exact length_closingBrace_le hsome
        have hbehind := hrest.cons.2.2.le_of_length hstop hclosing hle
        rw [hsome]
        exact ⟨_, rfl, .inr ⟨p, closing, ⟨_, close⟩, rfl, rfl, hbehind, hrest, hclosing⟩⟩
    · rw [if_pos (bne_iff_ne.2 hc)]
      exact ⟨none, rfl, .inl ⟨rfl, if_neg (by simpa using hc)⟩⟩

theorem emissions_eq (limits : Limits) (base t : Text) :
    emissions t limits base = some (Literal.emissions limits base t) := by
  have hwhole : Stands t t.length t 0 := ⟨Nat.zero_le _, Text.window_whole t⟩
  obtain ⟨found, hfound, hbraces⟩ := objectLiteral_stands (Nat.le_refl _) hwhole
  unfold emissions Literal.emissions
  rw [hfound]
  rcases hbraces with ⟨rfl, hnone⟩ | ⟨opening, closing, b, rfl, hsome, hlt, hopening, hclosing⟩
  · rw [hnone]
    rfl
  · have hbraced : Stands t closing (b.fromOpen.upTo b.fromClose) opening :=
      ⟨Nat.le_of_lt hlt, hopening.upTo (Nat.le_refl _) hclosing (Nat.le_of_lt hlt)⟩
    rw [hsome]
    exact scan_stands limits base 0 hclosing.le (hbraced.drop hlt)

/-- The loops flatten a literal as the library does. -/
theorem flatten_eq (limits : Limits) (base t : Text) :
    flatten t limits base = some (Literal.flatten limits base t) := by
  unfold flatten Literal.flatten
  rw [emissions_eq]
  split
  · rfl
  · rfl

end MessageCatalog.Literal.Walk
