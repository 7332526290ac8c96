/-
  MessageCatalog.Proofs.Literal.Names — one name in several spellings.

  An identifier of ASCII letters and the same identifier in quotes denote one name, and
  the scan reads either. Any other bare name it does not read: the code points that
  start no name are passed over one by one, and the scan goes on with what is left of the
  property as if it stood in the object itself.

  Proved:
  - `flatten_respelled`: a literal with any of its identifiers in quotes is the same table.
    Its strings may be longer than allowed; these are passed over whole
    (`readValue_long`).
  - `scan_number`: a number and its colon are passed over, and so is the brace behind them
    (`scan_brace`), so the members of the object come out under the path of its parent.
  - `scan_foreign`: of a name with a letter outside ASCII, what is behind the last such
    letter counts as the name.
  So a name in quotes and the same name without them differ, unless it is an identifier of
  ASCII letters (`flatten_unquoted_differs`).
-/

import MessageCatalog.Proofs.Literal.Flatten

namespace MessageCatalog.Literal

open Source

/-! ## Spellings -/

/-- The same name, or an identifier put in quotes. -/
inductive Source.Name.Respelled : Name → Name → Prop where
  | same (n : Name) : Respelled n n
  | quoted {c : Code} {r : Text} (starts : Key.startsSegment c = true) (continues : r.all Key.continuesSegment = true)
      {s : Quoted} (hq : isNameQuote s.quote = true) (hs : s.body = c :: r) :
      Respelled (.bare c r starts continues) (.quoted s hq)

def Source.Head.Respelled (h h' : Head) : Prop := h.name.Respelled h'.name ∧ h' = { h with name := h'.name }

mutual

inductive Source.Members.Respelled : Members → Members → Prop where
  | done (gap : Gap) : Members.Respelled (.done gap) (.done gap)
  | leaf {head head' : Head} (value : Leaf) {tail tail' : Tail} : head.Respelled head' → Tail.Respelled tail tail' →
      Members.Respelled (.leaf head value tail) (.leaf head' value tail')
  | object {head head' : Head} (named : head.name.denoted ≠ []) (named' : head'.name.denoted ≠ [])
      {inner inner' : Members} {tail tail' : Tail} : head.Respelled head' → Members.Respelled inner inner' →
      Tail.Respelled tail tail' → Members.Respelled (.object head named inner tail) (.object head' named' inner' tail')

inductive Source.Tail.Respelled : Tail → Tail → Prop where
  | last (gap : Gap) : Tail.Respelled (.last gap) (.last gap)
  | comma (gap : Gap) {rest rest' : Members} : Members.Respelled rest rest' →
      Tail.Respelled (.comma gap rest) (.comma gap rest')

end

theorem decode_plain {t : Text} (h : ('\\' : Code) ∉ t) : decode t = t := by
  induction t with
  | nil => rw [decode]
  | cons c t ih =>
    obtain ⟨hc, ht⟩ := List.ne_and_not_mem_of_not_mem_cons h
    rw [decode, if_neg (mt beq_iff_eq.1 (Ne.symm hc)), ih ht]

theorem Source.Name.Respelled.denoted {n n' : Name} (h : n.Respelled n') : n'.denoted = n.denoted := by
  cases h with
  | same => rfl
  | @quoted c r starts continues s hq hs =>
    have hplain : ('\\' : Code) ∉ c :: r := by
      intro hmem
      rcases List.mem_cons.1 hmem with rfl | hmem
      · exact absurd starts (by decide)
      · exact absurd (List.all_eq_true.1 continues _ hmem) (by decide)
    show decode s.body = c :: r
    rw [hs, decode_plain hplain]

theorem Source.Name.Respelled.written {n n' : Name} (h : n.Respelled n') : n'.written = n.written := by
  cases h with
  | same => rfl
  | quoted _ _ _ hs => exact hs

theorem Source.Head.Respelled.fits {limits : Limits} {h h' : Head} (hr : h.Respelled h') (hf : h.fits limits = true) :
    h'.fits limits = true := by
  rw [Head.fits, hr.1.written]
  exact hf

/-! ## Long strings -/

theorem readBody_zero (q : Code) (giveUp : Reading) (whole acc t : Text) :
    readBody q giveUp whole 0 acc t = giveUp := by
  cases t <;> rw [readBody]

/-- A string that does not end within the budget is given up. -/
theorem readBody_long {q : Code} (hq : isQuote q = true) (giveUp : Reading) (whole : Text) {body : Text}
    (h : isPlain q body = true) {budget : Nat} (hb : budget ≤ body.length) (acc t : Text) :
    readBody q giveUp whole budget acc (body ++ q :: t) = giveUp := by
  fun_induction decode body generalizing budget acc with
  | case1 =>
    obtain rfl : budget = 0 := Nat.le_zero.1 hb
    exact readBody_zero q giveUp whole acc _
  | case2 c r hc ih =>
    cases budget with
    | zero => exact readBody_zero q giveUp whole acc _
    | succ b =>
      obtain rfl := beq_iff_eq.1 hc
      have hr : r ≠ [] := by
        rintro rfl
        exact isPlain_not_lone h
      have hle := escape_le r
      have hp := isPlain_after_escape h
      rw [List.cons_append, readBody_escape (ne_backslash hq), escape_append hq hr,
        List.drop_append_of_le_length hle, ih hp (by simp at hb ⊢; omega)]
  | case3 c r hc ih =>
    cases budget with
    | zero => exact readBody_zero q giveUp whole acc _
    | succ b =>
      have hc : c ≠ '\\' := by simpa using hc
      obtain ⟨hcq, hn, hs, hp⟩ := isPlain_raw hc h
      have hs' : ¬ (q = '`' ∧ c = '$' ∧ Text.headIs '{' (r ++ q :: t) = true) := by
        rwa [headIs_append (quote_ne hq (by decide))]
      rw [List.cons_append, readBody_raw _ _ _ _ hc hcq hn hs', ih hp (by simpa using hb)]

theorem readString_long {n : Nat} {s : Quoted} (h : n ≤ s.body.length) (t : Text) :
    readString (some n) (s.print ++ t) = ⟨none, t⟩ := by
  have hlong : n < (s.body ++ s.quote :: t).length := by
    rw [List.length_append, List.length_cons]
    omega
  have hskip := skipString_plain s.isQuote s.isPlain t
  rw [Quoted.print, List.cons_append, List.append_assoc, List.singleton_append]
  simp only [readString, s.isQuote, Bool.not_true, Bool.false_eq_true, if_false, if_pos hlong, hskip,
    readBody_long s.isQuote _ _ s.isPlain h]

theorem readValue_long {limits : Limits} {s : Quoted} (h : limits.maxValueLength ≤ s.body.length) (t : Text) :
    readValue limits (s.print ++ t) = ⟨none, t⟩ := by
  simp only [readValue, readString_long h]

/-! ## The scan of either spelling -/

/-- Within the limits, or a single string of any length. -/
def Source.Leaf.isLegible (limits : Limits) : Leaf → Bool
  | .text _ [] => true
  | value => value.fits limits

mutual

/-- Names are within the limits; strings may be longer. -/
def Source.Members.isLegible (limits : Limits) : Members → Bool
  | .done _ => true
  | .leaf head value tail => head.fits limits && value.isLegible limits && tail.isLegible limits
  | .object head _ inner tail => head.fits limits && inner.isLegible limits && tail.isLegible limits

def Source.Tail.isLegible (limits : Limits) : Tail → Bool
  | .last _ => true
  | .comma _ rest => rest.isLegible limits

end

variable {limits : Limits}

/-- What a value comes to does not depend on what stands around it. -/
theorem scan_legible {value : Leaf} (hv : value.isLegible limits = true) :
    ∃ v : Option Text, ∀ (base : Text) (depth : Nat) (head : Head) (t : Text), head.fits limits = true → Ends t →
      scan limits base depth (head.print ++ (value.print ++ t)) =
        (v.map (Emission.leaf depth (Key.under base head.name.denoted))).toList ++ scan limits base depth t := by
  by_cases hf : value.fits limits = true
  · exact ⟨value.denoted?, fun base depth head t hh ht => scan_leaf base depth hh hf ht⟩
  match value, hv with
  | .text s [], _ =>
    by_cases hlen : s.body.length < limits.maxValueLength
    · refine ⟨some s.denoted, fun base depth head t hh ht => ?_⟩
      have hread : readValue limits (s.print ++ t) = ⟨some s.denoted, t⟩ := by
        simp only [readValue, readString_print s hlen]
        exact joinStrings_end ht s.denoted
      rw [Leaf.print, List.flatMap_nil, List.append_nil]
      exact scan_text base depth hh s hread ht
    · refine ⟨none, fun base depth head t hh ht => ?_⟩
      rw [Leaf.print, List.flatMap_nil, List.append_nil]
      exact scan_text base depth hh s (readValue_long (Nat.le_of_not_lt hlen) t) ht
  | .text s (x :: more), hv => exact absurd hv hf
  | .other e, hv => exact absurd hv hf

mutual

/-- In either spelling the scan of members emits the same. -/
theorem scan_respelled {m m' : Members} (h : m.Respelled m') (hm : m.isLegible limits = true) (base : Text)
    (depth : Nat) : scan limits base depth m'.print = scan limits base depth m.print := by
  match h with
  | .done gap => rfl
  | .leaf value hr hl =>
    simp only [Members.isLegible, Bool.and_eq_true] at hm
    obtain ⟨⟨hh, hv⟩, hlm⟩ := hm
    obtain ⟨v, hscan⟩ := scan_legible hv
    rw [Members.print, Members.print, hscan _ _ _ _ hh (tail_ends _), hscan _ _ _ _ (hr.fits hh) (tail_ends _),
      hr.1.denoted, scan_respelledTail hl hlm]
  | .object named named' hr hi hl =>
    simp only [Members.isLegible, Bool.and_eq_true] at hm
    obtain ⟨⟨hh, him⟩, hlm⟩ := hm
    rw [Members.print, Members.print, scan_object base depth hh, scan_object base depth (hr.fits hh), hr.1.denoted,
      scan_respelled hi him, scan_respelledTail hl hlm]

theorem scan_respelledTail {l l' : Tail} (h : l.Respelled l') (hl : l.isLegible limits = true) (base : Text)
    (depth : Nat) : scan limits base depth l'.print = scan limits base depth l.print := by
  match h with
  | .last gap => rfl
  | .comma gap hr => rw [Tail.print, Tail.print, scan_separator, scan_separator, scan_respelled hr hl]

end

/-! ## Names that are not read -/

section

variable {base : Text} {depth : Nat}

theorem scan_gap (g : Gap) (t : Text) : scan limits base depth (g.print ++ t) = scan limits base depth t :=
  scan_congr (skipTrivia_gap g t)

theorem scan_solid {c : Code} (hb : isBlank c = false) (hs : c ≠ '/') (hc : startsName c = false) (t : Text) :
    scan limits base depth (c :: t) = scan limits base depth t :=
  scan_noise (skipTrivia_cons hb hs t) hc

theorem scan_brace (g : Gap) (t : Text) :
    scan limits base depth (g.print ++ ('{' : Code) :: t) = scan limits base depth t := by
  rw [scan_gap, scan_solid (by decide) (by decide) (by decide)]

theorem digit_solid {c : Nat} (h : Text.isDigit c = true) : isBlank c = false ∧ c ≠ '/' ∧ startsName c = false := by
  have hall : ∀ c < 58, Text.isDigit c = true → isBlank c = false ∧ c ≠ '/' ∧ startsName c = false := by
    decide +kernel
  have hlt : c < 58 := by
    rw [Text.isDigit, Bool.and_eq_true, decide_eq_true_eq, decide_eq_true_eq] at h
    exact Nat.lt_succ_of_le h.2
  exact hall c hlt h

/-- A number for a name is passed over, and so is the colon behind it. -/
theorem scan_number {ds : Text} (h : ds.all Text.isDigit = true) (before beforeColon : Gap) (t : Text) :
    scan limits base depth (before.print ++ (ds ++ (beforeColon.print ++ (':' : Code) :: t))) =
      scan limits base depth t := by
  rw [scan_gap]
  induction ds with
  | nil => rw [List.nil_append, scan_gap, scan_solid (by decide) (by decide) (by decide)]
  | cons d ds ih =>
    rw [List.all_cons, Bool.and_eq_true] at h
    obtain ⟨hb, hs, hn⟩ := digit_solid h.1
    rw [List.cons_append, scan_solid hb hs hn, ih h.2]

/-- A code point outside ASCII that is no white space. -/
def isForeign (c : Code) : Bool := 128 ≤ c && !isBlank c

theorem foreign_solid {c : Nat} (h : isForeign c = true) :
    isBlank c = false ∧ c ≠ '/' ∧ startsName c = false ∧ c ≠ ':' ∧ Key.continuesSegment c = false := by
  rw [isForeign, Bool.and_eq_true, decide_eq_true_eq, Bool.not_eq_true'] at h
  have hge : 128 ≤ c := h.1
  have hc : Key.continuesSegment c = false := by
    refine Bool.eq_false_iff.2 fun hcon => ?_
    simp [Key.continuesSegment, Key.startsSegment, Text.isLetter, Text.isUpper, Text.isLower, Text.isDigit] at hcon
    grind
  have hs : Key.startsSegment c = false := (Bool.or_eq_false_iff.1 hc).1
  have hq : isNameQuote c = false := by
    refine Bool.eq_false_iff.2 fun hq => ?_
    simp [isNameQuote] at hq
    grind
  refine ⟨h.2, ?_, by rw [startsName, hq, hs]; rfl, ?_, hc⟩
  · rintro rfl
    exact absurd hge (by decide)
  · rintro rfl
    exact absurd hge (by decide)

/-- An identifier that breaks off at a foreign letter is no name. -/
theorem scan_broken {d e : Code} {r s : Text} (hd : Key.startsSegment d = true)
    (hr : r.dropWhile Key.continuesSegment = e :: s) (he : isForeign e = true) :
    scan limits base depth (d :: r) = scan limits base depth (e :: s) := by
  obtain ⟨hq, hb, hs⟩ := startsSegment_solid hd
  obtain ⟨heb, hes, -, hcolon, -⟩ := foreign_solid he
  have hfront : front limits (d :: r) = .noise (e :: s) := by
    simp only [front, skipTrivia_cons hb hs, startsName, readName, hd, hq, Bool.or_true, if_true, Bool.false_eq_true,
      if_false, identifierName, hr, skipTrivia_cons heb hes, beq_eq_false_iff_ne.2 hcolon]
    split <;> rfl
  rw [scan_eq, hfront]

/-- A code point of a name that is an identifier but for letters outside ASCII. -/
def isNameCode (c : Code) : Bool := Key.continuesSegment c || isForeign c

theorem nameCode_solid {c : Nat} (h : isNameCode c = true) (hc : Key.startsSegment c = false) :
    isBlank c = false ∧ c ≠ '/' ∧ startsName c = false := by
  rcases Bool.or_eq_true_iff.1 h with h | h
  · rcases Bool.or_eq_true_iff.1 h with h | h
    · rw [hc] at h
      cases h
    · exact digit_solid h
  · obtain ⟨hb, hs, hn, -⟩ := foreign_solid h
    exact ⟨hb, hs, hn⟩

theorem dropWhile_foreign {a : Text} (ha : a.all isNameCode = true) {c : Code} (hc : isForeign c = true) (t : Text) :
    (a ++ c :: t).dropWhile Key.continuesSegment = a.dropWhile Key.continuesSegment ++ c :: t ∧
      ∃ e s, a.dropWhile Key.continuesSegment ++ c :: t = e :: s ∧ isForeign e = true := by
  have hstop : Key.continuesSegment c = false := (foreign_solid hc).2.2.2.2
  induction a with
  | nil => exact ⟨List.dropWhile_cons_of_neg (by simp [hstop]), c, t, rfl, hc⟩
  | cons d a ih =>
    rw [List.all_cons, Bool.and_eq_true] at ha
    by_cases hd : Key.continuesSegment d = true
    · rw [List.cons_append, List.dropWhile_cons_of_pos hd, List.dropWhile_cons_of_pos hd]
      exact ih ha.2
    · rw [List.cons_append, List.dropWhile_cons_of_neg hd, List.dropWhile_cons_of_neg hd]
      exact ⟨rfl, d, a ++ c :: t, rfl, (Bool.or_eq_true_iff.1 ha.1).resolve_left hd⟩

/-- Of a name, what stands before its last foreign letter is passed over, and so is that
letter. -/
theorem scan_foreign {a : Text} (ha : a.all isNameCode = true) {c : Code} (hc : isForeign c = true) (t : Text) :
    scan limits base depth (a ++ c :: t) = scan limits base depth t := by
  match a with
  | [] =>
    obtain ⟨hb, hs, hn, -⟩ := foreign_solid hc
    rw [List.nil_append, scan_solid hb hs hn]
  | d :: a =>
    rw [List.all_cons, Bool.and_eq_true] at ha
    by_cases hd : Key.startsSegment d = true
    · obtain ⟨hdrop, e, s, hes, he⟩ := dropWhile_foreign ha.2 hc t
      have hall : (a.dropWhile Key.continuesSegment).all isNameCode = true :=
        List.all_eq_true.2 fun x hx => List.all_eq_true.1 ha.2 x ((List.dropWhile_sublist _).subset hx)
      have hle := (List.dropWhile_sublist (l := a) Key.continuesSegment).length_le
      rw [List.cons_append, scan_broken hd (hdrop.trans hes) he, ← hes]
      exact scan_foreign hall hc t
    · obtain ⟨hb, hs, hn⟩ := nameCode_solid ha.1 (Bool.eq_false_iff.2 hd)
      rw [List.cons_append, scan_solid hb hs hn]
      exact scan_foreign ha.2 hc t
termination_by a.length

end

/-! ## Literals -/

/-- Identifiers mean the same with quotes and without them, wherever they stand. A number
for a name is passed over instead, with its colon and the brace that follows, and of a
name with letters outside ASCII all is passed over up to the last of these. -/
theorem flatten_respelled (limits : Limits) (base : Text) :
    (∀ (before : Gap) (m m' : Members) (after : Text), m.Respelled m' → m.isLegible limits = true →
        (m.source before after).length ≤ limits.maxContentLength →
        (m'.source before after).length ≤ limits.maxContentLength →
        ∃ f, (flatten limits base (m.source before after)).run.value = .ok f ∧
          (flatten limits base (m'.source before after)).run.value = .ok f) ∧
      (∀ (depth : Nat) (before beforeColon : Gap) (ds t : Text), ds.all Text.isDigit = true →
        scan limits base depth (before.print ++ (ds ++ (beforeColon.print ++ (':' : Code) :: t))) =
          scan limits base depth t) ∧
      (∀ (depth : Nat) (before : Gap) (t : Text),
        scan limits base depth (before.print ++ ('{' : Code) :: t) = scan limits base depth t) ∧
      ∀ (depth : Nat) (before : Gap) (a : Text) (c : Code) (t : Text), a.all isNameCode = true → isForeign c = true →
        scan limits base depth (before.print ++ (a ++ c :: t)) = scan limits base depth t := by
  refine ⟨?_, fun depth before beforeColon ds t h => scan_number h before beforeColon t,
    fun depth before t => scan_brace before t, fun depth before a c t ha hc => ?_⟩
  · intro before m m' after hr hm hlen hlen'
    have hsame : emissions limits base (m'.source before after) = emissions limits base (m.source before after) := by
      simp only [Members.source, emissions, objectLiteral_source, inside_source]
      exact scan_respelled hr hm base 0
    refine ⟨_, flatten_run base hlen, ?_⟩
    rw [flatten_run base hlen', hsame]
  · rw [scan_gap, scan_foreign ha hc]

def Source.spelled (outer inner : Name) (named : outer.denoted ≠ []) : Members :=
  .object ⟨[], outer, [], []⟩ named
    (.leaf ⟨[], .bare 'b' ['1'] rfl rfl, [], []⟩ (.text (.single "long" (by decide +kernel)) [])
      (.comma [] (.leaf ⟨[], inner, [], []⟩ (.text (.single "v" (by decide +kernel)) []) (.last []))))
    (.last [])

theorem flatten_respelled_sample :
    (∃ f, (flatten { maxValueLength := 3 } "p" "\x7ba:\x7bb1:'long',$:'v'\x7d\x7d").run.value = .ok f ∧
        (flatten { maxValueLength := 3 } "p" "\x7b\"a\":\x7bb1:'long','$':'v'\x7d\x7d").run.value = .ok f) ∧
      scan {} "p" 0 "404 : \x7ba: 'x'\x7d" = scan {} "p" 0 " \x7ba: 'x'\x7d" ∧
      scan {} "p" 0 " \x7ba: 'x'\x7d" = scan {} "p" 0 "a: 'x'\x7d" ∧
      scan {} "p" 0 "/**/n1aïve: 'x'" = scan {} "p" 0 "ve: 'x'" := by
  obtain ⟨hrespelled, -⟩ := flatten_respelled { maxValueLength := 3 } "p"
  obtain ⟨-, hnumber, hbrace, hforeign⟩ := flatten_respelled {} "p"
  refine ⟨?_, ?_, ?_, ?_⟩
  · exact hrespelled [] (spelled (.bare 'a' [] rfl rfl) (.bare '$' [] rfl rfl) (by decide +kernel))
      (spelled (.quoted ⟨'"', "a", rfl, by decide +kernel⟩ rfl) (.quoted ⟨'\'', "$", rfl, by decide +kernel⟩ rfl)
        (by decide +kernel)) []
      (.object _ _ ⟨.quoted rfl rfl rfl rfl, rfl⟩
        (.leaf _ ⟨.same _, rfl⟩ (.comma _ (.leaf _ ⟨.quoted rfl rfl rfl rfl, rfl⟩ (.last _)))) (.last _))
      (by decide +kernel) (by decide +kernel) (by decide +kernel)
  · exact hnumber 0 [] [.space] "404" " \x7ba: 'x'\x7d" (by decide)
  · exact hbrace 0 [.space] "a: 'x'\x7d"
  · exact hforeign 0 [.block [] rfl] "n1a" 'ï' "ve: 'x'" (by decide) (by decide)

def keysOf (t : Text) : Option (List Text × List Text) :=
  (flatten {} "" t).run.value.toOption.map fun f => (f.entries.keys, f.rejected.toList)

theorem flatten_unquoted_differs :
    keysOf "\x7b404: \x7ba: 'x'\x7d\x7d" = some ([("a" : Text)], []) ∧
      keysOf "\x7b'404': \x7ba: 'x'\x7d\x7d" = some ([], [("404.a" : Text)]) ∧
      keysOf "\x7bnaïve: 'x'\x7d" = some ([("ve" : Text)], []) ∧
      keysOf "\x7b'naïve': 'x'\x7d" = some ([], [("naïve" : Text)]) := by
  decide +kernel

end MessageCatalog.Literal
