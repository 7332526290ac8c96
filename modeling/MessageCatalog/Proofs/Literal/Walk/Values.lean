/-
  MessageCatalog.Proofs.Literal.Walk.Values — names and values by positions.
-/

import MessageCatalog.Proofs.Literal.Walk.Strings

namespace MessageCatalog.Literal.Walk

variable {t : Text} {stop : Nat}

/-! ## Names -/

theorem nameEnd_far (q : Code) {limit i : Nat} (h : limit ≤ i) : nameEnd t q limit i = some i := by
  rw [nameEnd, dif_neg (by omega)]
  rfl

theorem nameEnd_cons (q : Code) {c : Code} {r : Text} {limit i : Nat} (h : Stands t stop (c :: r) i)
    (hlimit : i < limit) :
    nameEnd t q limit i =
      if c == q || c == '\n' then some i
      else if c == '\\' then nameEnd t q limit (i + 2)
      else nameEnd t q limit (i + 1) := by
  rw [nameEnd, dif_pos hlimit, h.get]
  rfl

/-- A backslash in front of `stop` takes the loop past it, where nothing is left. -/
theorem nameEnd_window (hstop : stop ≤ t.length) (q : Code) {limit cap : Nat} (hcap : limit = min stop cap)
    {budget : Nat} {s : Text} {i : Nat} (h : Stands t stop s i) (hbudget : budget = cap - i) :
    ∃ j, nameEnd t q limit i = some j ∧ i ≤ j ∧ t.window j stop = Literal.nameEnd q budget s := by
  fun_induction Literal.nameEnd q budget s generalizing i with
  | case1 =>
    have hend := h.stop_le hstop
    exact ⟨i, nameEnd_far q (by omega), Nat.le_refl i, h.window⟩
  | case2 => exact ⟨i, nameEnd_far q (by omega), Nat.le_refl i, h.window⟩
  | case3 c r budget hc =>
    have hlt := h.cons.1
    rw [nameEnd_cons q h (by omega), if_pos hc]
    exact ⟨i, rfl, Nat.le_refl i, h.window⟩
  | case4 c r budget hc hback ih =>
    obtain ⟨hlt, -, hr⟩ := h.cons
    rw [nameEnd_cons q h (by omega), if_neg hc, if_pos hback]
    cases r with
    | nil =>
      have hend := hr.stop_le hstop
      refine ⟨i + 2, nameEnd_far q (by omega), by omega, ?_⟩
      rw [Text.window, List.drop_eq_nil_of_le (by rw [List.length_take]; omega), List.tail_nil, Literal.nameEnd.eq_def]
    | cons d s =>
      obtain ⟨j, hj, hle, hwindow⟩ := ih hr.cons.2.2 (by omega)
      exact ⟨j, hj, by omega, hwindow⟩
  | case5 c r budget hc hback ih =>
    obtain ⟨hlt, -, hr⟩ := h.cons
    obtain ⟨j, hj, hle, hwindow⟩ := ih hr (by omega)
    rw [nameEnd_cons q h (by omega), if_neg hc, if_neg hback]
    exact ⟨j, hj, by omega, hwindow⟩

theorem unclosed_reads (hstop : stop ≤ t.length) {q : Code} {body : Text} {i : Nat} (h : Stands t stop (q :: body) i) :
    ∃ next, skipString t stop i = some next ∧
      Reads t stop ⟨none, Literal.skipString q body⟩ (none, max next (i + 1)) := by
  obtain ⟨next, hnext, hlt, hrest⟩ := skipString_stands hstop h
  refine ⟨next, hnext, rfl, ?_⟩
  rwa [Nat.max_eq_left hlt]

theorem quotedName_reads (hstop : stop ≤ t.length) (limits : Limits) {q : Code} {body : Text} {i : Nat}
    (h : Stands t stop (q :: body) i) :
    ∃ read, quotedName t limits stop i = some read ∧
      Reads t stop ⟨(Literal.quotedName limits q body).name, (Literal.quotedName limits q body).rest⟩ read := by
  obtain ⟨hlt, -, hbody⟩ := h.cons
  obtain ⟨j, hj, hle, hwindow⟩ := nameEnd_window hstop q
    (rfl : min stop (i + 1 + limits.maxKeyLength) = min stop (i + 1 + limits.maxKeyLength)) hbody
    (Nat.add_sub_cancel_left _ _).symm
  obtain ⟨next, hnext, hunclosed⟩ := unclosed_reads hstop h
  unfold quotedName
  rw [h.get]
  simp only [Option.bind_eq_bind, Option.bind_some, hj, hnext]
  cases hend : Literal.nameEnd q limits.maxKeyLength body with
  | nil =>
    rw [hend] at hwindow
    have hpast : stop ≤ j := by
      have hlen := Text.length_window hstop j
      rw [hwindow, List.length_nil] at hlen
      omega
    rw [looksAt_end _ hpast, Option.bind_some, if_neg Bool.false_ne_true, Literal.quotedName, hend]
    exact ⟨_, rfl, hunclosed⟩
  | cons c r =>
    rw [hend] at hwindow
    have hclose : Stands t stop (c :: r) j := ⟨Nat.le_of_lt (lt_of_window hwindow), hwindow⟩
    rw [looksAt_cons hclose, Option.bind_some, Literal.quotedName, hend]
    by_cases hc : c = q
    · subst hc
      obtain ⟨raw, rfl⟩ : c :: r <:+ body := by
        rw [← hend]
        exact nameEnd_suffix _ _ _
      have hraw := hbody.upTo hstop hclose hle
      have hliteral := h.upTo hstop hclose.cons.2.2 (by omega)
      rw [upTo_append] at hraw
      rw [show c :: (raw ++ c :: r) = (c :: raw ++ [c]) ++ r by simp, upTo_append] at hliteral
      simp only [beq_self_eq_true, if_true, unquote_eq, hraw, hliteral, upTo_append]
      exact ⟨_, rfl, rfl, hclose.cons.2.2⟩
    · rw [if_neg (by simpa using hc)]
      simp only [beq_false_of_ne hc, Bool.false_eq_true, if_false]
      exact ⟨_, rfl, hunclosed⟩

theorem identifierEnd_far {limit i : Nat} (h : limit ≤ i) : identifierEnd t limit i = some i := by
  rw [identifierEnd, dif_neg (by omega)]
  rfl

theorem identifierEnd_append (hstop : stop ≤ t.length) {limit : Nat} (hlimit : limit ≤ stop) {w u : Text} {i : Nat}
    (h : Stands t stop (w ++ u) i) (hw : ∀ c ∈ w, Key.continuesSegment c = true)
    (hu : u.head?.any Key.continuesSegment = false) :
    identifierEnd t limit i = some (i + min w.length (limit - i)) := by
  induction w generalizing i with
  | nil =>
    rw [List.length_nil, Nat.zero_min, Nat.add_zero]
    rcases Nat.lt_or_ge i limit with hlt | hge
    · cases u with
      | nil =>
        have hend := h.stop_le hstop
        omega
      | cons d u =>
        rw [identifierEnd, dif_pos hlt, Stands.get h]
        simp only [List.head?_cons, Option.any_some] at hu
        simp only [Option.bind_eq_bind, Option.bind_some, hu, Bool.false_eq_true, if_false]
        rfl
    · exact identifierEnd_far hge
  | cons c w ih =>
    rcases Nat.lt_or_ge i limit with hlt | hge
    · have hc := hw c List.mem_cons_self
      rw [identifierEnd, dif_pos hlt, Stands.get h]
      simp only [Option.bind_eq_bind, Option.bind_some, hc, if_true]
      rw [ih h.cons.2.2 fun d hd => hw d (List.mem_cons_of_mem c hd), List.length_cons]
      congr 1
      omega
    · rw [identifierEnd_far hge, Nat.sub_eq_zero_of_le hge, Nat.min_zero, Nat.add_zero]

theorem continues_split (r : Text) :
    ∃ w u, r = w ++ u ∧ (∀ c ∈ w, Key.continuesSegment c = true) ∧ u.head?.any Key.continuesSegment = false ∧
      r.takeWhile Key.continuesSegment = w ∧ r.dropWhile Key.continuesSegment = u := by
  refine ⟨_, _, (List.takeWhile_append_dropWhile (p := Key.continuesSegment)).symm, ?_, ?_, rfl, rfl⟩
  · intro c hc
    exact List.all_eq_true.1 List.all_takeWhile c hc
  · have hhead := List.head?_dropWhile_not Key.continuesSegment r
    cases hr : (r.dropWhile Key.continuesSegment).head? with
    | none => rfl
    | some d =>
      rw [hr] at hhead
      simpa using hhead

theorem identifierName_reads (hstop : stop ≤ t.length) (limits : Limits) {c : Code} {r : Text} {i : Nat}
    (h : Stands t stop (c :: r) i) :
    ∃ read, identifierName t limits stop i = some read ∧
      Reads t stop ⟨(Literal.identifierName limits c r).name, (Literal.identifierName limits c r).rest⟩ read := by
  obtain ⟨hlt, -, hr⟩ := h.cons
  obtain ⟨w, u, rfl, hw, hu, htake, hdrop⟩ := continues_split r
  have hlen := hr.length hstop
  rw [List.length_append] at hlen
  have hend : Stands t stop u (i + 1 + w.length) := by
    have hskip := hr.drop (n := w.length) (by omega)
    rwa [List.drop_left] at hskip
  unfold identifierName Literal.identifierName
  rw [identifierEnd_append hstop (Nat.min_le_left _ _) hr hw hu, htake, hdrop]
  simp only [Option.bind_eq_bind, Option.bind_some]
  by_cases hfits : (c :: w).length ≤ max 1 limits.maxKeyLength
  · have hall : min w.length (min stop (i + limits.maxKeyLength) - (i + 1)) = w.length := by
      rw [List.length_cons] at hfits
      omega
    rw [hall, looksAt_stands hstop hend, hu, if_pos hfits]
    have hname := h.upTo hstop hend (by omega)
    rw [← List.cons_append, upTo_append] at hname
    simp only [Option.bind_some, Bool.false_eq_true, if_false, hname]
    exact ⟨_, rfl, rfl, hend⟩
  · generalize hm : min w.length (min stop (i + limits.maxKeyLength) - (i + 1)) = m
    have hlonger : m < w.length := by
      rw [List.length_cons] at hfits
      omega
    have hmiddle : Stands t stop (w.drop m ++ u) (i + 1 + m) := by
      have hskip := hr.drop (n := m) (by omega)
      rwa [List.drop_append_of_le_length (Nat.le_of_lt hlonger)] at hskip
    have hfront : (w.drop m ++ u).head?.any Key.continuesSegment = true := by
      rw [List.drop_eq_getElem_cons hlonger, List.cons_append, List.head?_cons, Option.any_some]
      exact hw _ (List.getElem_mem hlonger)
    have hwhole : i + 1 + m + min (w.drop m).length (stop - (i + 1 + m)) = i + 1 + w.length := by
      rw [List.length_drop]
      omega
    rw [looksAt_stands hstop hmiddle, hfront, if_neg hfits]
    simp only [Option.bind_some, if_true]
    rw [identifierEnd_append hstop (Nat.le_refl stop) hmiddle (fun d hd => hw d (List.mem_of_mem_drop hd)) hu, hwhole]
    exact ⟨_, rfl, rfl, hend⟩

theorem propertyName_reads (hstop : stop ≤ t.length) (limits : Limits) {c : Code} {r : Text} {i : Nat}
    (h : Stands t stop (c :: r) i) :
    ∃ read, propertyName t limits stop i c = some read ∧
      Reads t stop ⟨(readName limits c r).name, (readName limits c r).rest⟩ read := by
  unfold propertyName readName
  split
  · exact quotedName_reads hstop limits h
  · exact identifierName_reads hstop limits h

/-! ## Values -/

/-- What is added is what stands behind a plus sign. -/
inductive Adds (t : Text) (stop : Nat) (rest : Text) : Added → Prop
  | nothing (hplus : ∀ r, Literal.skipTrivia rest ≠ ('+' : Code) :: r) : Adds t stop rest .nothing
  | noString {r : Text} (hplus : Literal.skipTrivia rest = ('+' : Code) :: r)
      (hquote : (Literal.skipTrivia r).head?.any isQuote = false) : Adds t stop rest .noString
  | string {r body : Text} {q : Code} {opening : Nat} (hplus : Literal.skipTrivia rest = ('+' : Code) :: r)
      (hoperand : Literal.skipTrivia r = q :: body) (hquote : isQuote q = true)
      (hopening : Stands t stop (q :: body) opening) : Adds t stop rest (.string opening)

theorem added_adds (hstop : stop ≤ t.length) {rest : Text} {i : Nat} (h : Stands t stop rest i) :
    ∃ found, added t stop i = some found ∧ Adds t stop rest found := by
  obtain ⟨j, hj, hplus⟩ := skipTrivia_stands hstop h
  unfold added
  rw [hj]
  simp only [Option.bind_eq_bind, Option.bind_some, looksAt_headIs hstop hplus]
  cases hadded : Text.headIs '+' (Literal.skipTrivia rest) with
  | false =>
    refine ⟨.nothing, rfl, .nothing fun r hr => ?_⟩
    rw [hr, Text.headIs, List.head?_cons, beq_self_eq_true] at hadded
    cases hadded
  | true =>
    obtain ⟨r, hr⟩ := Text.headIs_cons hadded
    rw [hr] at hplus
    obtain ⟨k, hk, hquote⟩ := skipTrivia_stands hstop hplus.cons.2.2
    simp only [Bool.not_true, Bool.false_eq_true, if_false, hk, Option.bind_some, looksAt_stands hstop hquote]
    cases hquoted : (Literal.skipTrivia r).head?.any isQuote with
    | false => exact ⟨.noString, rfl, .noString hr hquoted⟩
    | true =>
      cases hoperand : Literal.skipTrivia r with
      | nil =>
        rw [hoperand] at hquoted
        cases hquoted
      | cons q body =>
        rw [hoperand] at hquote hquoted
        exact ⟨.string k, rfl, .string hr hoperand hquoted hquote⟩

theorem operand_lt {rest r body : Text} {q : Code} (hplus : Literal.skipTrivia rest = ('+' : Code) :: r)
    (hoperand : Literal.skipTrivia r = q :: body) : (q :: body).length < rest.length := by
  have hrest := length_skipTrivia_le rest
  have hr := length_skipTrivia_le r
  rw [hplus, List.length_cons] at hrest
  rw [hoperand] at hr
  omega

/-- By induction on what is left: each string that is added takes some of it. -/
theorem joinStrings_reads (hstop : stop ≤ t.length) (limits : Limits) (value : Text) {rest : Text} {i : Nat}
    (h : Stands t stop rest i) :
    ∃ read, joinStrings t limits stop value i = some read ∧
      Reads t stop (Literal.joinStrings limits value rest) read := by
  obtain ⟨found, hfound, hadds⟩ := added_adds hstop h
  rw [joinStrings, hfound, joinStrings_eq]
  simp only [Option.bind_eq_bind, Option.bind_some]
  cases hadds with
  | nothing hplus =>
    refine ⟨_, rfl, ?_⟩
    cases hskip : Literal.skipTrivia rest with
    | nil => exact ⟨rfl, h⟩
    | cons c r =>
      have hc : ¬ (c == '+') = true := by
        rw [beq_iff_eq]
        rintro rfl
        exact hplus r hskip
      simp only [if_neg hc]
      exact ⟨rfl, h⟩
  | noString hplus hquote =>
    rename_i r
    refine ⟨_, rfl, ?_⟩
    simp only [hplus, beq_self_eq_true, if_true]
    cases hoperand : Literal.skipTrivia r with
    | nil => exact ⟨rfl, h⟩
    | cons q body =>
      rw [hoperand] at hquote
      simp only [show isQuote q = false from hquote, Bool.false_eq_true, if_false]
      exact ⟨rfl, h⟩
  | string hplus hoperand hquote hopening =>
    rename_i r body q opening
    obtain ⟨⟨part, behind⟩, hread, hpart, hbehind⟩ := readString_reads hstop (some limits.maxValueLength) hopening
    have hshorter := Nat.lt_trans (length_readString_lt (some limits.maxValueLength) body hquote)
      (operand_lt hplus hoperand)
    simp only [hplus, beq_self_eq_true, if_true, hoperand, hquote, hread, Option.bind_some]
    generalize Literal.readString (some limits.maxValueLength) (q :: body) = reading at hpart hbehind hshorter
    obtain ⟨text, next⟩ := reading
    obtain rfl : part = text := hpart
    cases part with
    | none => exact ⟨_, rfl, rfl, hbehind⟩
    | some part =>
      by_cases hlong : limits.maxValueLength < value.length + part.length
      · simp only [if_pos hlong]
        exact ⟨_, rfl, rfl, hbehind⟩
      · have hnext : i < behind ∧ behind ≤ stop := by
          have hi := h.length hstop
          have hlen := hbehind.length hstop
          omega
        simp only [if_neg hlong, dif_pos hnext]
        exact joinStrings_reads hstop limits (value ++ part) hbehind
termination_by rest.length

theorem readValue_reads (hstop : stop ≤ t.length) (limits : Limits) {q : Code} {body : Text} {i : Nat}
    (h : Stands t stop (q :: body) i) :
    ∃ read, readValue t limits stop i = some read ∧ Reads t stop (Literal.readValue limits (q :: body)) read := by
  obtain ⟨⟨text, next⟩, hread, htext, hrest⟩ := readString_reads hstop (some limits.maxValueLength) h
  unfold readValue Literal.readValue
  rw [hread]
  simp only [Option.bind_eq_bind, Option.bind_some]
  generalize Literal.readString (some limits.maxValueLength) (q :: body) = r at htext hrest
  obtain ⟨value, rest⟩ := r
  obtain rfl : text = value := htext
  cases text with
  | none => exact ⟨_, rfl, rfl, hrest⟩
  | some text => exact joinStrings_reads hstop limits text hrest

theorem passValue_far (closers : List Code) {limit i : Nat} (h : limit ≤ i) :
    passValue t limit stop closers i = some i := by
  rw [passValue, dif_neg (by omega)]
  rfl

theorem passValue_cons (hstop : stop ≤ t.length) (closers : List Code) {c : Code} {r : Text} {limit i : Nat}
    (h : Stands t stop (c :: r) i) (hlimit : i < limit) :
    passValue t limit stop closers i =
      if isQuote c then
        (skipString t stop i).bind fun next => if i < next then passValue t limit stop closers next else none
      else if Literal.opensComment c r then
        if closers.isEmpty && Text.headIs '/' r then some i
        else (skipTrivia t stop i).bind fun next => if i < next then passValue t limit stop closers next else none
      else
        match closerOf c with
        | some d => passValue t limit stop (d :: closers) (i + 1)
        | none =>
          if closers.head? == some c then passValue t limit stop closers.tail (i + 1)
          else if closers.isEmpty && (c == ',' || c == '}' || c == '\n') then some (i + 1)
          else passValue t limit stop closers (i + 1) := by
  rw [passValue, dif_pos hlimit, h.get]
  simp only [opensComment_stands hstop h, Option.bind_eq_bind, Option.bind_some]
  by_cases hq : isQuote c = true
  · simp only [if_pos hq, dite_eq_ite]
  by_cases hcomment : Literal.opensComment c r = true
  · -- a comment has a second code point
    obtain ⟨d, s, rfl⟩ : ∃ d s, r = d :: s := by
      cases r with
      | nil => simp [Literal.opensComment, Text.headIs] at hcomment
      | cons d s => exact ⟨d, s, rfl⟩
    rw [h.cons.2.2.get]
    simp [hq, hcomment, Text.headIs]
  · simp only [if_neg hq, if_neg hcomment]
    rfl

theorem passValue_stands (hstop : stop ≤ t.length) (closers : List Code) {limit cap : Nat} (hcap : limit = min stop cap)
    {budget : Nat} {s : Text} {i : Nat} (h : Stands t stop s i) (hbudget : budget = cap - i) :
    ∃ p, passValue t limit stop closers i = some p ∧
      Stands t stop (Literal.skipValue closers budget s) p := by
  fun_induction Literal.skipValue closers budget s generalizing i with
  | case1 =>
    have hend := h.stop_le hstop
    exact ⟨i, passValue_far _ (by omega), h⟩
  | case2 => exact ⟨i, passValue_far _ (by omega), h⟩
  | case3 closers c r budget hq ih =>
    obtain ⟨p, hp, hlt, hrest⟩ := skipString_stands hstop h
    have hi := h.length hstop
    have hlen := hrest.length hstop
    rw [List.length_cons] at hi
    rw [passValue_cons hstop closers h (by omega), if_pos hq, hp, Option.bind_some, if_pos hlt]
    exact ih hrest (by omega)
  | case4 closers c r budget hq hcomment hline =>
    have hlt := h.cons.1
    rw [passValue_cons hstop closers h (by omega), if_neg hq, if_pos hcomment, if_pos hline]
    exact ⟨i, rfl, h⟩
  | case5 closers c r budget hq hcomment hline rest =>
    rename_i ih
    obtain ⟨p, hp, hlt, hrest⟩ := comment_stands hstop h hcomment
    have hi := h.length hstop
    have hlen : p + rest.length = stop := hrest.length hstop
    rw [List.length_cons] at hi
    rw [passValue_cons hstop closers h (by omega), if_neg hq, if_pos hcomment, if_neg hline, hp, Option.bind_some,
      if_pos hlt]
    exact ih hrest (by omega)
  | case6 closers c r budget hq hcomment d hopens ih =>
    have hlt := h.cons.1
    rw [passValue_cons hstop closers h (by omega), if_neg hq, if_neg hcomment, hopens]
    exact ih h.cons.2.2 (by omega)
  | case7 closers c r budget hq hcomment hopens hcloses ih =>
    have hlt := h.cons.1
    rw [passValue_cons hstop closers h (by omega), if_neg hq, if_neg hcomment, hopens]
    simp only [if_pos hcloses]
    exact ih h.cons.2.2 (by omega)
  | case8 closers c r budget hq hcomment hopens hcloses hends =>
    have hlt := h.cons.1
    rw [passValue_cons hstop closers h (by omega), if_neg hq, if_neg hcomment, hopens]
    simp only [if_neg hcloses, if_pos hends]
    exact ⟨i + 1, rfl, h.cons.2.2⟩
  | case9 closers c r budget hq hcomment hopens hcloses hends ih =>
    have hlt := h.cons.1
    rw [passValue_cons hstop closers h (by omega), if_neg hq, if_neg hcomment, hopens]
    simp only [if_neg hcloses, if_neg hends]
    exact ih h.cons.2.2 (by omega)

theorem skipValue_stands (hstop : stop ≤ t.length) (limits : Limits) {s : Text} {i : Nat} (h : Stands t stop s i) :
    ∃ p, skipValue t limits stop i = some p ∧
      Stands t stop (Literal.skipValue [] limits.maxValueLength s) p :=
  passValue_stands hstop [] rfl h (Nat.add_sub_cancel_left i _).symm

end MessageCatalog.Literal.Walk
