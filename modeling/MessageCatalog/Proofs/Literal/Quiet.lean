/-
  MessageCatalog.Proofs.Literal.Quiet — the scan inside an expression.

  Passing a value may stop inside it, and the scan goes on there as if it stood between two
  members. What it can read then is a name in front of a colon with a text or an object
  behind it. Tokens are quiet if they have no such colon.

  Proved: from wherever passing a value stops in quiet tokens, the scan gets to what follows
  them without emitting anything (`calm_tokens`).
-/

import MessageCatalog.Proofs.Literal.Names
import MessageCatalog.Proofs.Literal.Tokens

namespace MessageCatalog.Literal

open Source

/-! ## Quiet tokens -/

/-- Of a template that is scanned as code: neither a quote, a slash nor a colon. -/
def isInert (c : Code) : Bool := !isQuote c && c != '/' && c != ':'

/-- Whether a property could be read that has these tokens for its value. -/
def Source.Tokens.startsText : Tokens → Bool
  | .code _ _ _ _ => false
  | .group _ b _ _ _ => b == .curly
  | .done | .string _ _ _ | .template _ _ _ _ => true

/-- Whether no colon stands between a name and a text or an object; `named` if a name may end
in front of the tokens. -/
def Source.Tokens.isQuiet (named : Bool) : Tokens → Bool
  | .done => true
  | .code gap c _ rest =>
    !(named && c == ':' && rest.startsText) &&
      rest.isQuiet (Key.startsSegment c || (named && gap.isEmpty && Key.continuesSegment c))
  | .string _ s rest =>
    if isNameQuote s.quote then rest.isQuiet true else s.body.all isInert && rest.isQuiet false
  | .template _ body _ rest => body.all isInert && rest.isQuiet false
  | .group _ _ inside _ rest => inside.isQuiet false && rest.isQuiet false

/-! ## Calm texts -/

section

variable (limits : Limits) (base : Text) (depth : Nat)

/-- From wherever passing a value stops in the text, the scan gets to `rest` without emitting
anything. -/
structure Calm (rest t : Text) : Prop where
  far : rest.length ≤ t.length
  scan : scan limits base depth t = scan limits base depth rest
  skip : ∀ budget, (skipTrivia t).length ≤ budget + rest.length →
    Literal.scan limits base depth (skipValue [] budget (skipTrivia t)) = Literal.scan limits base depth rest

/-- A name that ends in front of the text makes no property whose value is read. -/
structure Landing (rest t : Text) : Prop where
  scan : scan limits base depth t = scan limits base depth rest
  colon : ∀ s, skipTrivia t = (':' : Code) :: s → ∃ c r, skipTrivia s = c :: r ∧ c ≠ '{' ∧ isQuote c = false ∧
    Literal.scan limits base depth (skipValue [] limits.maxValueLength (c :: r)) =
      Literal.scan limits base depth rest

/-- A calm text that neither continues a name nor has a colon behind one. -/
structure Sealed (rest t : Text) : Prop extends Calm limits base depth rest t where
  colon : ∀ s, skipTrivia t ≠ (':' : Code) :: s
  still : t.head?.any Key.continuesSegment = false

end

section

variable {limits : Limits} {base : Text} {depth : Nat} {rest t : Text}

theorem Calm.past (h : Calm limits base depth rest t) {budget : Nat} (hb : t.length ≤ budget + rest.length) :
    Literal.scan limits base depth (skipValue [] budget t) = Literal.scan limits base depth rest :=
  scan_past_trivia h.scan h.skip hb

theorem Sealed.landing (h : Sealed limits base depth rest t) : Landing limits base depth rest t :=
  ⟨h.scan, fun s hs => absurd hs (h.colon s)⟩

/-- A name is passed over, whether it can be read or not. -/
theorem scan_name {c : Code} {r u : Text} (ht : skipTrivia t = c :: r) (hc : startsName c = true)
    (hu : (readName limits c r).rest = u) (h : Landing limits base depth rest u) :
    scan limits base depth t = scan limits base depth rest := by
  rw [scan_eq, front, ht]
  simp only [hc, if_true, hu]
  cases (readName limits c r).name with
  | none => exact h.scan
  | some name =>
    cases hsep : skipTrivia u with
    | nil => exact h.scan
    | cons d s =>
      by_cases hd : d = ':'
      · subst hd
        obtain ⟨e, v, hvalue, hbrace, hquote, hscan⟩ := h.colon s hsep
        simp only [beq_self_eq_true, if_true, hvalue, scanProperty, if_neg (mt beq_iff_eq.1 hbrace), hquote,
          Bool.false_eq_true, if_false]
        exact hscan
      · simp only [if_neg (mt beq_iff_eq.1 hd)]
        exact h.scan

theorem quote_not_continues {q : Code} (h : isQuote q = true) : Key.continuesSegment q = false := by
  simp only [isQuote, isNameQuote, Bool.or_eq_true, beq_iff_eq] at h
  rcases h with (rfl | rfl) | rfl <;> rfl

theorem not_startsName {c : Code} (hq : isQuote c = false) (hs : ¬ Key.startsSegment c = true) :
    startsName c = false := by
  rw [startsName, Bool.or_eq_false_iff]
  exact ⟨(Bool.or_eq_false_iff.1 hq).1, by simpa using hs⟩

theorem identifier_rest {c : Code} (hc : Key.startsSegment c = true) (r : Text) :
    (readName limits c r).rest = r.dropWhile Key.continuesSegment := by
  simp only [readName, (startsSegment_solid hc).1, Bool.false_eq_true, if_false, identifierName]

/-- The search for the end of a name stops between the code points of its body, never
inside an escape. -/
theorem nameEnd_inside {q : Code} (hq : isNameQuote q = true) {body : Text} (h : isPlain q body = true)
    (budget : Nat) (t : Text) :
    ∃ post, nameEnd q budget (body ++ q :: t) = post ++ q :: t ∧ isPlain q post = true := by
  have hback : q ≠ '\\' := ne_backslash (by simp [isQuote, hq])
  have htemplate : q ≠ '`' := by
    rintro rfl
    exact absurd hq (by decide)
  have hzero {u : Text} : nameEnd q 0 u = u := by cases u <;> rw [nameEnd]
  fun_induction isPlain q body generalizing budget with
  | case1 =>
    refine ⟨[], ?_, rfl⟩
    cases budget with
    | zero => exact hzero
    | succ b => rw [List.nil_append, nameEnd, if_pos (by simp)]
  | case2 => cases h
  | case3 c hc d s ih =>
    cases budget with
    | zero => exact ⟨c :: d :: s, hzero, by rw [isPlain, if_pos hc]; exact h⟩
    | succ b =>
      obtain rfl := beq_iff_eq.1 hc
      rw [Bool.and_eq_true] at h
      rw [List.cons_append, List.cons_append, nameEnd, if_neg (by simpa using hback.symm), if_pos hc, List.tail_cons]
      exact ih h.2 _
  | case4 c r hc ih =>
    cases budget with
    | zero => exact ⟨c :: r, hzero, by rw [isPlain.eq_def]; simp only [hc]; exact h⟩
    | succ b =>
      simp only [Bool.and_eq_true, Bool.or_eq_true, bne_iff_ne, beq_iff_eq] at h
      obtain ⟨⟨⟨hcq, hn⟩, -⟩, hr⟩ := h
      have hgo : ¬ (c == q || c == '\n') = true := by simpa [hcq] using hn.resolve_left htemplate
      rw [List.cons_append, nameEnd, if_neg hgo, if_neg hc]
      exact ih hr b

theorem quotedName_rest (limits : Limits) (s : Quoted) (hq : isNameQuote s.quote = true) (t : Text) :
    (quotedName limits s.quote (s.body ++ s.quote :: t)).rest = t := by
  obtain ⟨post, hpost, hplain⟩ := nameEnd_inside hq s.isPlain limits.maxKeyLength t
  have hskip := skipString_plain s.isQuote s.isPlain t
  cases post with
  | nil => simp only [quotedName, hpost, List.nil_append, beq_self_eq_true, if_true]
  | cons c r =>
    have hne : c ≠ s.quote := by
      rintro rfl
      exact (isPlain_raw (ne_backslash s.isQuote) hplain).1 rfl
    simp only [quotedName, hpost, List.cons_append, beq_eq_false_iff_ne.2 hne, Bool.false_eq_true, if_false, hskip]

/-! ### Tokens in front of a calm text -/

theorem calm_code (gap : Gap) {c : Code} (hc : isCode c = true) (hs : ¬ opensComment c t = true)
    (h : Calm limits base depth rest t)
    (hname : Key.startsSegment c = true → Landing limits base depth rest (t.dropWhile Key.continuesSegment)) :
    Calm limits base depth rest (gap.print ++ c :: t) := by
  obtain ⟨hblank, hq, hbracket⟩ := code_inert hc
  have hskip : skipTrivia (gap.print ++ c :: t) = c :: t := by rw [skipTrivia_gap, skipTrivia_code hc hs]
  have hscan : scan limits base depth (c :: t) = scan limits base depth rest := by
    by_cases hstarts : Key.startsSegment c = true
    · exact scan_name (skipTrivia_code hc hs) (by simp [startsName, hstarts]) (identifier_rest hstarts t)
        (hname hstarts)
    · rw [scan_noise (skipTrivia_code hc hs) (not_startsName hq hstarts), h.scan]
  refine ⟨by have := h.far; simp; omega, by rw [scan_gap, hscan], fun budget hb => ?_⟩
  rw [hskip] at hb ⊢
  cases budget with
  | zero => rw [skipValue_zero, hscan]
  | succ b =>
    by_cases hcomma : c = ','
    · rw [skipValue_end (.inl hcomma), h.scan]
    · have hfeed : c ≠ '\n' := by
        rintro rfl
        cases hblank
      rw [skipValue_code hq hs (code_closerOf hc) (by simp) fun _ => ⟨hcomma, (hbracket .curly).2, hfeed⟩]
      exact h.past (by rw [List.length_cons] at hb; omega)

/-- A string or a template is passed as a whole; `hscan` says what the scan makes of it. -/
theorem calm_quoted (gap : Gap) {q : Code} (hq : isQuote q = true) {body : Text}
    (hskip : skipString q (body ++ q :: t) = t) (h : Calm limits base depth rest t)
    (hscan : scan limits base depth (q :: (body ++ q :: t)) = scan limits base depth rest) :
    Sealed limits base depth rest (gap.print ++ q :: (body ++ q :: t)) := by
  have htrivia : skipTrivia (gap.print ++ q :: (body ++ q :: t)) = q :: (body ++ q :: t) := by
    rw [skipTrivia_gap, skipTrivia_quote hq]
  refine ⟨⟨by have := h.far; simp; omega, by rw [scan_gap, hscan], fun budget hb => ?_⟩, fun s hs => ?_, ?_⟩
  · rw [htrivia] at hb ⊢
    cases budget with
    | zero => rw [skipValue_zero, hscan]
    | succ b =>
      rw [skipValue, if_pos hq, hskip]
      refine h.past ?_
      simp only [List.length_cons, List.length_append] at hb ⊢
      omega
  · rw [htrivia] at hs
    exact quote_ne hq (by decide) (List.cons.inj hs).1
  · exact head_gap gap (fun _ => quote_not_continues hq) _

theorem calm_string (gap : Gap) (s : Quoted) (hq : isNameQuote s.quote = true)
    (h : Calm limits base depth rest t) (hname : Landing limits base depth rest t) :
    Sealed limits base depth rest (gap.print ++ s.quote :: (s.body ++ s.quote :: t)) := by
  refine calm_quoted gap s.isQuote (skipString_plain s.isQuote s.isPlain t) h ?_
  have hrest : (readName limits s.quote (s.body ++ s.quote :: t)).rest = t := by
    rw [readName, if_pos hq, quotedName_rest limits s hq t]
  exact scan_name (skipTrivia_quote s.isQuote _) (by simp [startsName, hq]) hrest hname

theorem inert_solid {c : Code} (h : isInert c = true) : isQuote c = false ∧ c ≠ '/' ∧ c ≠ ':' := by
  simpa only [isInert, Bool.and_eq_true, Bool.not_eq_true', bne_iff_ne, and_assoc] using h

theorem inert_colon {body : Text} (h : body.all isInert = true) (s : Text) :
    skipTrivia (body ++ ('`' : Code) :: t) ≠ (':' : Code) :: s := by
  induction body with
  | nil =>
    rw [List.nil_append, skipTrivia_quote Quoted.isQuote_template]
    exact fun e => absurd (List.cons.inj e).1 (by decide)
  | cons c r ih =>
    rw [List.all_cons, Bool.and_eq_true] at h
    obtain ⟨-, hs, hcolon⟩ := inert_solid h.1
    rw [List.cons_append]
    by_cases hblank : isBlank c = true
    · rw [skipTrivia_blank hblank]
      exact ih h.2
    · rw [skipTrivia_cons (by simpa using hblank) hs]
      exact fun e => hcolon (List.cons.inj e).1

/-- The scan reads no property in what is inert, up to a backtick. -/
theorem scan_inert {body : Text} (hb : body.all isInert = true)
    (h : scan limits base depth (('`' : Code) :: t) = scan limits base depth rest) :
    scan limits base depth (body ++ ('`' : Code) :: t) = scan limits base depth rest := by
  match body with
  | [] => exact h
  | c :: r =>
    rw [List.all_cons, Bool.and_eq_true] at hb
    obtain ⟨hq, hs, -⟩ := inert_solid hb.1
    rw [List.cons_append]
    by_cases hblank : isBlank c = true
    · rw [scan_congr (skipTrivia_blank hblank _)]
      exact scan_inert hb.2 h
    have hsolid := skipTrivia_cons (by simpa using hblank) hs (r ++ ('`' : Code) :: t)
    by_cases hstarts : Key.startsSegment c = true
    · -- an identifier, behind which there is no colon
      have hdrop : (r ++ ('`' : Code) :: t).dropWhile Key.continuesSegment =
          r.dropWhile Key.continuesSegment ++ ('`' : Code) :: t := by
        rw [List.dropWhile_append]
        split
        · rename_i hnil
          rw [List.isEmpty_iff.1 hnil]
          rfl
        · rfl
      have hle := (List.dropWhile_sublist (l := r) Key.continuesSegment).length_le
      have hall : (r.dropWhile Key.continuesSegment).all isInert = true :=
        List.all_eq_true.2 fun x hx => List.all_eq_true.1 hb.2 x ((List.dropWhile_sublist _).subset hx)
      refine scan_name hsolid (by simp [startsName, hstarts]) ((identifier_rest hstarts _).trans hdrop) ⟨?_, ?_⟩
      · exact scan_inert hall h
      · exact fun s e => absurd e (inert_colon hall s)
    · rw [scan_noise hsolid (not_startsName hq hstarts)]
      exact scan_inert hb.2 h
termination_by body.length

theorem calm_template (gap : Gap) {body : Text} (hi : body.all isInert = true)
    (hskip : skipString '`' (body ++ ('`' : Code) :: t) = t) (h : Calm limits base depth rest t) :
    Sealed limits base depth rest (gap.print ++ ('`' : Code) :: (body ++ ('`' : Code) :: t)) := by
  have hback (u : Text) : scan limits base depth (('`' : Code) :: u) = scan limits base depth u :=
    scan_solid (by decide) (by decide) (by decide) u
  refine calm_quoted gap Quoted.isQuote_template hskip h ?_
  rw [hback, scan_inert hi ((hback t).trans h.scan)]

theorem calm_close (gap : Gap) (b : Bracket) (h : Calm limits base depth rest t) :
    Sealed limits base depth rest (gap.print ++ b.closing :: t) := by
  obtain ⟨hq, hs, ho⟩ := closing_inert b
  have htrivia : skipTrivia (gap.print ++ b.closing :: t) = b.closing :: t := by
    rw [skipTrivia_gap, skipTrivia_closing]
  have hscan : scan limits base depth (b.closing :: t) = scan limits base depth rest := by
    rw [scan_solid (closing_solid b).1 hs (by cases b <;> rfl), h.scan]
  refine ⟨⟨by have := h.far; simp; omega, by rw [scan_gap, hscan], fun budget hb => ?_⟩, fun s e => ?_, ?_⟩
  · rw [htrivia] at hb ⊢
    cases budget with
    | zero => rw [skipValue_zero, hscan]
    | succ n =>
      rw [List.length_cons] at hb
      by_cases hbrace : b = .curly
      · subst hbrace
        rw [show skipValue [] (n + 1) (Bracket.closing .curly :: t) = t from skipValue_brace t, h.scan]
      · have hend : b.closing ≠ ',' ∧ b.closing ≠ '}' ∧ b.closing ≠ '\n' := by
          cases b with
          | round => decide
          | square => decide
          | curly => exact absurd rfl hbrace
        rw [skipValue_inert hq hs ho (by simp) fun _ => hend]
        exact h.past (by omega)
  · rw [htrivia] at e
    cases b <;> exact absurd (List.cons.inj e).1 (by decide)
  · exact head_gap gap (fun _ => by cases b <;> rfl) t

theorem calm_group (gap : Gap) (b : Bracket) {inside : Text}
    (hinside : ∀ n, skipValue [b.closing] (inside.length + n) (inside ++ b.closing :: t) =
      skipValue [b.closing] n (b.closing :: t))
    (h : Calm limits base depth rest t)
    (hscan : scan limits base depth (inside ++ b.closing :: t) = scan limits base depth rest) :
    Sealed limits base depth rest (gap.print ++ b.opening :: (inside ++ b.closing :: t)) := by
  have htrivia : skipTrivia (gap.print ++ b.opening :: (inside ++ b.closing :: t)) =
      b.opening :: (inside ++ b.closing :: t) := by rw [skipTrivia_gap, skipTrivia_opening]
  have hopen : scan limits base depth (b.opening :: (inside ++ b.closing :: t)) = scan limits base depth rest := by
    rw [scan_solid (opening_solid b).1 (opening_solid b).2 (by cases b <;> rfl), hscan]
  have hfar := h.far
  refine ⟨⟨by simp; omega, by rw [scan_gap, hopen], fun budget hb => ?_⟩, fun s e => ?_, ?_⟩
  · rw [htrivia] at hb ⊢
    simp only [List.length_cons, List.length_append] at hb
    obtain ⟨n, rfl⟩ : ∃ n, budget = inside.length + 2 + n := ⟨budget - (inside.length + 2), by omega⟩
    rw [skipValue_group b n hinside]
    exact h.past (by omega)
  · rw [htrivia] at e
    cases b <;> exact absurd (List.cons.inj e).1 (by decide)
  · exact head_gap gap (fun _ => by cases b <;> rfl) _

theorem skipTrivia_twice (t : Text) : skipTrivia (skipTrivia t) = skipTrivia t := by
  fun_induction skipTrivia t with
  | case1 => exact skipTrivia_nil
  | case2 _ _ _ ih | case3 _ _ _ _ _ ih | case4 _ _ _ _ _ ih => exact ih
  | case5 c r hb hc => rw [skipTrivia, if_neg hb, if_neg hc]

theorem sealed_end (h : Ends t) : Sealed limits base depth t t where
  far := Nat.le_refl _
  scan := rfl
  skip budget _ := by
    rw [scan_past_end (by rwa [Ends, skipTrivia_twice])]
    exact scan_congr (skipTrivia_twice t)
  colon s e := by
    rcases h with h | ⟨u, h⟩
    · rw [h] at e
      cases e
    · rw [h] at e
      exact absurd (List.cons.inj e).1 (by decide)
  still := by
    cases t with
    | nil => rfl
    | cons c r =>
      refine Bool.eq_false_iff.2 fun hc => ?_
      have hc : Key.continuesSegment c = true := by simpa using hc
      have hblank : isBlank c = false := Bool.eq_false_iff.2 fun hb => by
        rw [blank_not_continues hb] at hc
        cases hc
      rw [Ends, skipTrivia_cons hblank (segment_inert hc).2.1] at h
      rcases h with h | ⟨s, h⟩
      · cases h
      · obtain ⟨rfl, -⟩ := List.cons.inj h
        cases hc

/-! ### Rows of tokens -/

theorem Sealed.landings (h : Sealed limits base depth rest t) :
    Landing limits base depth rest t ∧ Landing limits base depth rest (t.dropWhile Key.continuesSegment) := by
  rw [dropWhile_still h.still]
  exact ⟨h.landing, h.landing⟩

/-- The value of a property that is no text starts with code or with a bracket. -/
theorem startsText_value {p : Tokens} (hp : p.startsText = false) (hs : p.isSlashed t = true) :
    ∃ c r, skipTrivia (p.print ++ t) = c :: r ∧ c ≠ '{' ∧ isQuote c = false := by
  cases p with
  | done | string | template => cases hp
  | code gap c h rest =>
    simp only [Tokens.isSlashed, Bool.and_eq_true, Bool.not_eq_true'] at hs
    obtain ⟨-, hq, hb⟩ := code_inert h
    exact ⟨c, _, by rw [Tokens.code_append, skipTrivia_gap, skipTrivia_code h (by simp [hs.1])], (hb .curly).1, hq⟩
  | group gap b inside close rest =>
    refine ⟨b.opening, _, by rw [Tokens.group_append, skipTrivia_gap, skipTrivia_opening], ?_, (opening_inert b).1⟩
    cases b with
    | round | square => decide
    | curly => cases hp

/-- A name in front of code makes no property, unless a colon has a text or an object behind
it. -/
theorem landing_code (gap : Gap) {c : Code} (hc : isCode c = true) {tail : Tokens}
    (hcolon : c = ':' → tail.startsText = false) (hopens : ¬ opensComment c (tail.print ++ t) = true)
    (hs : tail.isSlashed t = true) (htail : Calm limits base depth rest (tail.print ++ t))
    (hscan : scan limits base depth (gap.print ++ c :: (tail.print ++ t)) = scan limits base depth rest)
    (hlength : (tail.print ++ t).length ≤ limits.maxValueLength + rest.length) :
    Landing limits base depth rest (gap.print ++ c :: (tail.print ++ t)) := by
  refine ⟨hscan, fun s e => ?_⟩
  rw [skipTrivia_gap, skipTrivia_code hc hopens] at e
  obtain ⟨rfl, rfl⟩ := List.cons.inj e
  obtain ⟨d, r, hvalue, hbrace, hquote⟩ := startsText_value (hcolon rfl) hs
  refine ⟨d, r, hvalue, hbrace, hquote, ?_⟩
  have hle := length_skipTrivia_le (tail.print ++ t)
  rw [← hvalue]
  exact htail.skip _ (by omega)

/-- From wherever passing a value stops in quiet tokens, the scan gets behind them without
emitting anything. -/
theorem calm_tokens (p : Tokens) {named : Bool} (hq : p.isQuiet named = true) (hs : p.isSlashed t = true)
    (h : Sealed limits base depth rest t) (hfits : (p.print ++ t).length ≤ limits.maxValueLength + rest.length) :
    Calm limits base depth rest (p.print ++ t) ∧
      (named = true → Landing limits base depth rest (p.print ++ t) ∧
        Landing limits base depth rest ((p.print ++ t).dropWhile Key.continuesSegment)) := by
  induction p generalizing named t with
  | done => exact ⟨h.toCalm, fun _ => h.landings⟩
  | code gap c hc tail ih =>
    simp only [Tokens.isSlashed, Bool.and_eq_true, Bool.not_eq_true'] at hs
    simp only [Tokens.isQuiet, Bool.and_eq_true, Bool.not_eq_true'] at hq
    rw [Tokens.code_append] at hfits ⊢
    have hlength : (tail.print ++ t).length ≤ limits.maxValueLength + rest.length := by
      simp only [List.length_append, List.length_cons] at hfits ⊢
      omega
    obtain ⟨htail, hname⟩ := ih hq.2 hs.2 h hlength
    have hopens : ¬ opensComment c (tail.print ++ t) = true := by simp [hs.1]
    have hcalm := calm_code gap hc hopens htail fun hstarts => (hname (by simp [hstarts])).2
    refine ⟨hcalm, ?_⟩
    rintro rfl
    have hcolon (e : c = ':') : tail.startsText = false := by simpa [e] using hq.1
    have hland := landing_code gap hc hcolon hopens hs.2 htail hcalm.scan hlength
    refine ⟨hland, ?_⟩
    -- a name in front either takes the code point with no gap between, or ends here
    by_cases hgoes : gap = [] ∧ Key.continuesSegment c = true
    · obtain ⟨rfl, hcontinues⟩ := hgoes
      rw [show Gap.print [] = [] from rfl, List.nil_append, List.dropWhile_cons_of_pos hcontinues]
      exact (hname (by simp [hcontinues])).2
    · rw [dropWhile_still (head_gap gap (fun e => by simpa [e] using hgoes) _)]
      exact hland
  | string gap s tail ih =>
    rw [Tokens.string_append] at hfits ⊢
    have hlength : (tail.print ++ t).length ≤ limits.maxValueLength + rest.length := by
      simp only [List.length_append, List.length_cons] at hfits ⊢
      omega
    rw [Tokens.isQuiet] at hq
    have hsealed : Sealed limits base depth rest
        (gap.print ++ s.quote :: (s.body ++ s.quote :: (tail.print ++ t))) := by
      by_cases hquote : isNameQuote s.quote = true
      · rw [if_pos hquote] at hq
        obtain ⟨htail, hname⟩ := ih hq hs h hlength
        exact calm_string gap s hquote htail (hname rfl).1
      · rw [if_neg hquote, Bool.and_eq_true] at hq
        obtain ⟨htail, -⟩ := ih hq.2 hs h hlength
        have hback : s.quote = '`' := by simpa [isQuote, hquote] using s.isQuote
        have hskip := skipString_plain s.isQuote s.isPlain (tail.print ++ t)
        rw [hback] at hskip ⊢
        exact calm_template gap hq.1 hskip htail
    exact ⟨hsealed.toCalm, fun _ => hsealed.landings⟩
  | template gap body hb tail ih =>
    rw [Tokens.template_append] at hfits ⊢
    have hlength : (tail.print ++ t).length ≤ limits.maxValueLength + rest.length := by
      simp only [List.length_append, List.length_cons] at hfits ⊢
      omega
    rw [Tokens.isQuiet, Bool.and_eq_true] at hq
    obtain ⟨htail, -⟩ := ih hq.2 hs h hlength
    have hsealed := calm_template gap hq.1 (skipString_template hb _) htail
    exact ⟨hsealed.toCalm, fun _ => hsealed.landings⟩
  | group gap b inside close tail ih₁ ih₂ =>
    simp only [Tokens.isSlashed, Bool.and_eq_true] at hs
    rw [Tokens.group_append] at hfits ⊢
    simp only [List.length_append, List.length_cons] at hfits
    rw [Tokens.isQuiet, Bool.and_eq_true] at hq
    obtain ⟨htail, -⟩ := ih₂ hq.2 hs.2 h (by simp only [List.length_append]; omega)
    obtain ⟨hinside, -⟩ := ih₁ hq.1 hs.1 (calm_close close b htail) (by simp; omega)
    have hsealed := calm_group gap b (fun n => skipValue_inside b inside close n hs.1) htail
      (by rw [List.append_assoc, hinside.scan])
    exact ⟨hsealed.toCalm, fun _ => hsealed.landings⟩

end

end MessageCatalog.Literal
