/-
  MessageCatalog.Proofs.Literal.Sums — a text in one string, and in several that are added.

  The length of a text is limited twice. Reading a string, the scan looks at as many code points
  as a text may have, the closing quote among them; adding one, it compares the length of the
  sum. So a single string may be one code point shorter than a sum.

  What is left of a value that is too long is passed, within a budget that may end anywhere in
  it. From there the scan meets plus signs, which start no name, and strings without a colon
  behind them.

  Proved:
  - `scan_pieces`: in any layout, a text in however many pieces is emitted as a whole or not at
    all, depending only on its length and on whether it is a sum.
  - `flatten_split`: cut in two, a text gives what it gives in one piece, unless it is exactly as
    long as allowed; then it is found in two pieces and lost in one (`flatten_split_differs`).
-/

import MessageCatalog.Proofs.Literal.Unread

namespace MessageCatalog.Literal

open Source

/-! ## Pieces -/

/-- Not empty, in quotes that a name may have, and denoting what is written. -/
def Source.Quoted.isVerbatim (s : Quoted) : Bool := isNameQuote s.quote && !s.body.isEmpty && s.body.all (· != '\\')

/-- Whether each of the strings is verbatim. -/
def Source.Leaf.isVerbatim : Leaf → Bool
  | .text first more => (first :: more.map (·.string)).all Quoted.isVerbatim
  | .other _ => false

theorem Source.Quoted.isVerbatim_iff {s : Quoted} :
    s.isVerbatim = true ↔ isNameQuote s.quote = true ∧ s.body ≠ [] ∧ ('\\' : Code) ∉ s.body := by
  simp only [Quoted.isVerbatim, Bool.and_eq_true, Bool.not_eq_true', List.isEmpty_eq_false_iff, List.all_eq_true,
    bne_iff_ne, and_assoc]
  refine and_congr_right fun _ => and_congr_right fun _ => ?_
  exact ⟨fun h hmem => h _ hmem rfl, fun h c hc hback => h (hback ▸ hc)⟩

theorem denoted_verbatim {s : Quoted} (h : s.isVerbatim = true) : s.denoted = s.body :=
  decode_plain (Quoted.isVerbatim_iff.1 h).2.2

theorem flatMap_denoted {more : List Summand} (h : ∀ x ∈ more, x.string.isVerbatim = true) :
    more.flatMap (·.string.denoted) = more.flatMap (·.string.body) := by
  rw [List.flatMap_def, List.flatMap_def, List.map_congr_left fun x hx => denoted_verbatim (h x hx)]

theorem length_le_flatMap {more : List Summand} {x : Summand} (hx : x ∈ more) :
    x.string.body.length ≤ (more.flatMap (·.string.body)).length := by
  obtain ⟨before, after, rfl⟩ := List.append_of_mem hx
  simp only [List.flatMap_append, List.flatMap_cons, List.length_append]
  omega

/-- Whether a text is emitted: a sum may be as long as the limit, a single string may not. -/
def isKept (limits : Limits) (more : List Summand) (text : Text) : Bool :=
  if more.isEmpty then text.length < limits.maxValueLength else text.length ≤ limits.maxValueLength

/-- A text is emitted if its pieces and their sum are within the limits. -/
theorem fits_pieces (limits : Limits) {first : Quoted} {more : List Summand}
    (h : (Leaf.text first more).isVerbatim = true) :
    (Leaf.text first more).fits limits = isKept limits more (first.body ++ more.flatMap (·.string.body)) := by
  simp only [Leaf.isVerbatim, List.all_cons, List.all_map, Bool.and_eq_true, List.all_eq_true,
    Function.comp_apply] at h
  obtain ⟨hfirst, hmore⟩ := h
  have hpos := List.length_pos_iff.2 (Quoted.isVerbatim_iff.1 hfirst).2.1
  rw [Bool.eq_iff_iff]
  simp only [Leaf.fits, List.all_cons, List.all_map, Bool.and_eq_true, List.all_eq_true, Function.comp_apply,
    decide_eq_true_eq, denoted_verbatim hfirst, flatMap_denoted hmore, isKept]
  cases more with
  | nil => simp; omega
  | cons x more =>
    -- beside one that is not empty, every piece is shorter than the sum
    have hx := List.length_pos_iff.2 (Quoted.isVerbatim_iff.1 (hmore x List.mem_cons_self)).2.1
    have hle := length_le_flatMap (List.mem_cons_self (a := x) (l := more))
    rw [if_neg (by simp), decide_eq_true_eq, List.length_append]
    refine ⟨fun hf => hf.2, fun hsum => ⟨⟨by omega, fun y hy => ?_⟩, hsum⟩⟩
    have := length_le_flatMap hy
    omega

section

variable {limits : Limits} {base : Text} {depth : Nat} {t : Text}

/-! ## What is left of a sum -/

/-- Adding stops behind a string that is too long or makes the sum too long. -/
theorem joinStrings_stops {more : List Summand} (h : ∀ x ∈ more, x.string.isVerbatim = true) {value : Text}
    (hvalue : value.length ≤ limits.maxValueLength)
    (hlong : limits.maxValueLength < (value ++ more.flatMap (·.string.body)).length) :
    ∃ left, left <:+ more ∧
      joinStrings limits value (more.flatMap Summand.print ++ t) = ⟨none, left.flatMap Summand.print ++ t⟩ := by
  induction more generalizing value with
  | nil =>
    rw [List.flatMap_nil, List.append_nil] at hlong
    omega
  | cons x more ih =>
    obtain ⟨hx, hmore⟩ := List.forall_mem_cons.1 h
    have hprint : (x :: more).flatMap Summand.print ++ t =
        x.before.print ++ ('+' : Code) :: (x.after.print ++ x.string.quote ::
          (x.string.body ++ x.string.quote :: (more.flatMap Summand.print ++ t))) := by
      simp [Summand.print, Quoted.print]
    rw [hprint, joinStrings_string, denoted_verbatim hx]
    by_cases hstop : (limits.maxValueLength ≤ x.string.body.length ||
        decide (limits.maxValueLength < value.length + x.string.body.length)) = true
    · exact ⟨more, List.suffix_cons x more, by rw [if_pos hstop]⟩
    · rw [if_neg hstop]
      simp only [Bool.or_eq_true, decide_eq_true_eq, not_or, Nat.not_lt] at hstop
      rw [List.flatMap_cons, ← List.append_assoc] at hlong
      obtain ⟨left, hleft, hjoin⟩ := ih hmore (by rw [List.length_append]; exact hstop.2) hlong
      exact ⟨left, hleft.trans (List.suffix_cons x more), hjoin⟩

/-- Wherever passing a value stops in the text, and within whatever budget, the scan gets to `rest`. -/
def Passed (limits : Limits) (base : Text) (depth : Nat) (rest t : Text) : Prop :=
  ∀ budget, scan limits base depth (skipValue [] budget t) = scan limits base depth rest

variable {rest : Text}

theorem Passed.scan (h : Passed limits base depth rest t) :
    Literal.scan limits base depth t = Literal.scan limits base depth rest := by
  simpa only [skipValue_zero] using h 0

theorem Passed.gap (h : Passed limits base depth rest t) (hsolid : skipTrivia t = t) (gap : Gap) :
    Passed limits base depth rest (gap.print ++ t) := by
  intro budget
  refine scan_past_trivia ((scan_gap gap t).trans h.scan) (fun budget _ => ?_) (Nat.le_add_left _ budget)
  rw [skipTrivia_gap, hsolid]
  exact h budget

theorem Passed.plus (h : Passed limits base depth rest t) : Passed limits base depth rest (('+' : Code) :: t) := by
  intro budget
  cases budget with
  | zero => rw [skipValue_zero, scan_solid (by decide) (by decide) (by decide), h.scan]
  | succ budget =>
    rw [skipValue_inert (by decide) (by decide) (by decide) (by simp) fun _ => by decide]
    exact h budget

/-- A string is no property if no colon stands behind it. -/
theorem Passed.string (h : Passed limits base depth rest t) {s : Quoted} (hq : isNameQuote s.quote = true)
    (hcolon : ∀ u, skipTrivia t ≠ (':' : Code) :: u) : Passed limits base depth rest (s.print ++ t) := by
  have hprint : s.print ++ t = s.quote :: (s.body ++ s.quote :: t) := by simp [Quoted.print]
  have hrest : (readName limits s.quote (s.body ++ s.quote :: t)).rest = t := by
    rw [readName, if_pos hq, quotedName_rest limits s hq t]
  intro budget
  rw [hprint]
  cases budget with
  | zero =>
    rw [skipValue_zero]
    exact scan_name (skipTrivia_quote s.isQuote _) (by rw [startsName, hq]; rfl) hrest
      ⟨h.scan, fun u hu => absurd hu (hcolon u)⟩
  | succ budget =>
    rw [skipValue, if_pos s.isQuote, skipString_plain s.isQuote s.isPlain]
    exact h _

theorem summands_colon (ht : Ends t) (more : List Summand) (u : Text) :
    skipTrivia (more.flatMap Summand.print ++ t) ≠ (':' : Code) :: u := by
  intro h
  cases more with
  | nil =>
    rcases ht with ht | ⟨s, ht⟩ <;> rw [List.flatMap_nil, List.nil_append, ht] at h <;> cases h
  | cons x more =>
    rw [List.flatMap_cons, Summand.print, List.append_assoc, List.append_assoc, List.cons_append, plus_solid] at h
    cases h

theorem passed_summands (ht : Ends t) {more : List Summand} (h : ∀ x ∈ more, isNameQuote x.string.quote = true) :
    Passed limits base depth t (more.flatMap Summand.print ++ t) := by
  induction more with
  | nil => exact scan_past_end ht
  | cons x more ih =>
    obtain ⟨hx, hmore⟩ := List.forall_mem_cons.1 h
    have hstring := (ih hmore).string hx (summands_colon ht more)
    have hsolid : skipTrivia (x.string.print ++ (more.flatMap Summand.print ++ t)) =
        x.string.print ++ (more.flatMap Summand.print ++ t) := skipTrivia_quote x.string.isQuote _
    have hplus := (hstring.gap hsolid x.after).plus.gap (skipTrivia_cons (by decide) (by decide) _) x.before
    simpa [Summand.print] using hplus

/-! ## A text in pieces -/

/-- A text in one or more pieces is emitted, or passed as a whole. -/
theorem scan_pieces {head : Head} (hh : head.fits limits = true) {first : Quoted} {more : List Summand}
    (h : (Leaf.text first more).isVerbatim = true) (ht : Ends t) :
    scan limits base depth (head.print ++ ((Leaf.text first more).print ++ t)) =
      (if isKept limits more (first.body ++ more.flatMap (·.string.body)) then
        [Emission.leaf depth (Key.under base head.name.denoted) (first.body ++ more.flatMap (·.string.body))]
      else []) ++ scan limits base depth t := by
  have hfits := fits_pieces limits h
  simp only [Leaf.isVerbatim, List.all_cons, List.all_map, Bool.and_eq_true, List.all_eq_true,
    Function.comp_apply] at h
  obtain ⟨hfirst, hmore⟩ := h
  have hquotes : ∀ x ∈ more, isNameQuote x.string.quote = true := fun x hx =>
    (Quoted.isVerbatim_iff.1 (hmore x hx)).1
  by_cases hkept : isKept limits more (first.body ++ more.flatMap (·.string.body)) = true
  · rw [if_pos hkept, scan_leaf base depth hh (hfits.trans hkept) ht, Leaf.denoted?, denoted_verbatim hfirst,
      flatMap_denoted hmore]
    rfl
  · have hread : ∃ left, left <:+ more ∧ readValue limits (first.print ++ (more.flatMap Summand.print ++ t)) =
        ⟨none, left.flatMap Summand.print ++ t⟩ := by
      by_cases hlong : limits.maxValueLength ≤ first.body.length
      · exact ⟨more, List.suffix_refl more, readValue_long hlong _⟩
      · have hsum : limits.maxValueLength < (first.body ++ more.flatMap (·.string.body)).length := by
          rw [isKept] at hkept
          split at hkept
          · rename_i hnil
            rw [List.isEmpty_iff.1 hnil] at hkept
            simp at hkept
            omega
          · simpa using hkept
        rw [readValue, readString_print first (Nat.lt_of_not_le hlong), denoted_verbatim hfirst]
        exact joinStrings_stops hmore (Nat.le_of_not_le hlong) hsum
    obtain ⟨left, hleft, hread⟩ := hread
    rw [if_neg hkept, Leaf.print, List.append_assoc]
    have hscan := scan_read base depth hh first.isQuote hread
    rw [passed_summands ht fun x hx => hquotes x (hleft.subset hx)] at hscan
    exact hscan

end

theorem flatten_pieces (limits : Limits) (base : Text) {head : Head} (hh : head.fits limits = true) {first : Quoted}
    {more : List Summand} (h : (Leaf.text first more).isVerbatim = true) (before last : Gap) (after : Text)
    (hlen : ((Members.leaf head (.text first more) (.last last)).source before after).length ≤
      limits.maxContentLength) :
    (flatten limits base ((Members.leaf head (.text first more) (.last last)).source before after)).run.value =
      .ok (tabulate (if isKept limits more (first.body ++ more.flatMap (·.string.body)) then
        [(Key.under base head.name.denoted, first.body ++ more.flatMap (·.string.body))] else [])) := by
  have hscan := @scan_pieces limits base 0 _ head hh first more h (tail_ends (.last last))
  rw [Tail.print, scan_blank (skipTrivia_gap_nil last), List.append_nil] at hscan
  rw [flatten_run base hlen, Members.source, emissions_braced (closingBrace_object _ after), Members.print, Tail.print,
    hscan]
  split <;> rfl

/-! ## A text cut in two -/

def property (name value : Text) : Text :=
  ('{' : Code) :: (name ++ (':' : Code) :: (' ' : Code) :: (value ++ [('}' : Code)]))

theorem flatten_property (limits : Limits) (base : Text) {name : Text} (hname : Key.isSegment name = true)
    (hshort : name.length ≤ limits.maxKeyLength) {first : Quoted} {more : List Summand}
    (h : (Leaf.text first more).isVerbatim = true)
    (hlen : (property name (Leaf.text first more).print).length ≤ limits.maxContentLength) :
    (flatten limits base (property name (Leaf.text first more).print)).run.value =
      .ok (tabulate (if isKept limits more (first.body ++ more.flatMap (·.string.body)) then
        [(Key.under base name, first.body ++ more.flatMap (·.string.body))] else [])) := by
  cases name with
  | nil => cases hname
  | cons c r =>
    obtain ⟨hc, hr⟩ := Bool.and_eq_true_iff.1 hname
    let head : Head := ⟨[], .bare c r hc hr, [], [.space]⟩
    have hprint : (Members.leaf head (.text first more) (.last [])).source [] [] =
        property (c :: r) (Leaf.text first more).print := by
      simp [Members.source, Members.print, Tail.print, Head.print, Name.print, Gap.print, Trivium.space, Trivium.print,
        head, property]
    have hfits : head.fits limits = true := decide_eq_true hshort
    have hflat := flatten_pieces limits base hfits h [] [] [] (by rwa [hprint])
    rwa [hprint] at hflat

def isLiteral (c : Code) : Bool := c != '\'' && c != '\\' && c != '\n'

theorem isPlain_literal {t : Text} (h : t.all isLiteral = true) : isPlain '\'' t = true := by
  induction t with
  | nil => rfl
  | cons c t ih =>
    rw [List.all_cons, Bool.and_eq_true] at h
    obtain ⟨hc, ht⟩ := h
    simp only [isLiteral, Bool.and_eq_true, bne_iff_ne] at hc
    obtain ⟨⟨hquote, hback⟩, hfeed⟩ := hc
    rw [isPlain_cons hback hquote hfeed (fun h => absurd h (by decide)), ih ht]

theorem isVerbatim_single {t : Text} (h : t.all isLiteral = true) (hne : t ≠ []) :
    (Quoted.single t (isPlain_literal h)).isVerbatim = true := by
  refine Quoted.isVerbatim_iff.2 ⟨rfl, hne, fun hback => ?_⟩
  exact absurd (List.all_eq_true.1 h _ hback) (by decide)

def inQuotes (t : Text) : Text := ('\'' : Code) :: (t ++ [('\'' : Code)])

theorem tabulate_single_ne (e : Text × Text) : tabulate [e] ≠ tabulate [] := by
  intro h
  by_cases hk : Key.isValid e.1 = true
  · have hmem := mem_keys_tabulate.2 ⟨hk, e.2, List.mem_singleton_self e⟩
    rw [h] at hmem
    cases hmem
  · have hmem := mem_rejected_tabulate.2 ⟨Bool.eq_false_iff.2 hk, e.2, List.mem_singleton_self e⟩
    rw [h] at hmem
    cases hmem

theorem tabulate_limits (e : Text × Text) {n most : Nat} :
    tabulate (if n < most then [e] else []) = tabulate (if n ≤ most then [e] else []) ↔ n ≠ most := by
  rcases Nat.lt_trichotomy n most with hlt | rfl | hgt
  · rw [if_pos hlt, if_pos (Nat.le_of_lt hlt)]
    exact ⟨fun _ => Nat.ne_of_lt hlt, fun _ => rfl⟩
  · rw [if_neg (Nat.lt_irrefl n), if_pos (Nat.le_refl n)]
    exact ⟨fun h => absurd h.symm (tabulate_single_ne e), fun h => absurd rfl h⟩
  · rw [if_neg (Nat.not_lt.2 (Nat.le_of_lt hgt)), if_neg (Nat.not_le.2 hgt)]
    exact ⟨fun _ => Nat.ne_of_gt hgt, fun _ => rfl⟩

section

variable (limits : Limits) (base : Text) {name u v : Text}

theorem flatten_string (hname : Key.isSegment name = true) (hshort : name.length ≤ limits.maxKeyLength)
    (hu : u.all isLiteral = true) (hne : u ≠ [])
    (hlen : (property name (inQuotes u)).length ≤ limits.maxContentLength) :
    (flatten limits base (property name (inQuotes u))).run.value =
      .ok (tabulate (if u.length < limits.maxValueLength then [(Key.under base name, u)] else [])) := by
  let first : Quoted := .single u (isPlain_literal hu)
  have hone : (Leaf.text first []).isVerbatim = true := by
    simp only [Leaf.isVerbatim, List.map_nil, List.all_cons, List.all_nil, first, isVerbatim_single hu hne,
      Bool.and_true]
  have hprint : (Leaf.text first []).print = inQuotes u := List.append_nil _
  have hflat := flatten_property limits base hname hshort hone (by rwa [hprint])
  rw [hprint] at hflat
  simpa [isKept, first, Quoted.single] using hflat

theorem flatten_sum (hname : Key.isSegment name = true) (hshort : name.length ≤ limits.maxKeyLength)
    (hu : u.all isLiteral = true) (hu' : u ≠ []) (hv : v.all isLiteral = true) (hv' : v ≠ [])
    (hlen : (property name (inQuotes u ++ " + " ++ inQuotes v)).length ≤ limits.maxContentLength) :
    (flatten limits base (property name (inQuotes u ++ " + " ++ inQuotes v))).run.value =
      .ok (tabulate (if (u ++ v).length ≤ limits.maxValueLength then [(Key.under base name, u ++ v)] else [])) := by
  let first : Quoted := .single u (isPlain_literal hu)
  let second : Summand := ⟨[.space], [.space], .single v (isPlain_literal hv)⟩
  have htwo : (Leaf.text first [second]).isVerbatim = true := by
    simp only [Leaf.isVerbatim, List.map_cons, List.map_nil, List.all_cons, List.all_nil, first, second,
      isVerbatim_single hu hu', isVerbatim_single hv hv', Bool.and_true]
  have hprint : (Leaf.text first [second]).print = inQuotes u ++ " + " ++ inQuotes v := by
    rw [Leaf.print, List.flatMap_cons, List.flatMap_nil, List.append_nil, List.append_assoc]
    rfl
  have hflat := flatten_property limits base hname hshort htwo (by rwa [hprint])
  rw [hprint] at hflat
  simpa [isKept, first, second, Quoted.single] using hflat

end

/-- Cut in two, a text gives what it gives in one piece, unless it is as long as a text may be: in
one piece it is found if it is shorter, in two also at that length. -/
theorem flatten_split (limits : Limits) (base : Text) {name u v : Text} (hname : Key.isSegment name = true)
    (hshort : name.length ≤ limits.maxKeyLength) (hu : u.all isLiteral = true) (hv : v.all isLiteral = true)
    (hu' : u ≠ []) (hv' : v ≠ [])
    (hlen : (property name (inQuotes u ++ " + " ++ inQuotes v)).length ≤ limits.maxContentLength) :
    let whole := (flatten limits base (property name (inQuotes (u ++ v)))).run.value
    let split := (flatten limits base (property name (inQuotes u ++ " + " ++ inQuotes v))).run.value
    whole = .ok (tabulate (if (u ++ v).length < limits.maxValueLength then [(Key.under base name, u ++ v)] else [])) ∧
      split =
        .ok (tabulate (if (u ++ v).length ≤ limits.maxValueLength then [(Key.under base name, u ++ v)] else [])) ∧
      (whole = split ↔ (u ++ v).length ≠ limits.maxValueLength) := by
  intro whole split
  have huv : (u ++ v).all isLiteral = true := by
    rw [List.all_append, hu, hv]
    rfl
  have hless : (property name (inQuotes (u ++ v))).length ≤ limits.maxContentLength := by
    simp [property, inQuotes] at hlen ⊢
    omega
  have hwhole := flatten_string limits base hname hshort huv (List.append_ne_nil_of_left_ne_nil hu' v) hless
  have hsplit := flatten_sum limits base hname hshort hu hu' hv hv' hlen
  refine ⟨hwhole, hsplit, ?_⟩
  simp only [whole, split, hwhole, hsplit, Except.ok.injEq]
  exact tabulate_limits _

theorem flatten_split_sample :
    let limits : Limits := { maxValueLength := 3 }
    (Key.isSegment "k" = true ∧ ("a\x7b" : Text).all isLiteral = true ∧ ("\x22" : Text).all isLiteral = true) ∧
      property "k" (inQuotes "a\x7b" ++ " + " ++ inQuotes "\x22") = "\x7bk: 'a\x7b' + '\x22'\x7d" ∧
      (flatten limits "p" "\x7bk: 'a\x7b' + '\x22'\x7d").run.value = .ok (tabulate [("p.k", "a\x7b\x22")]) ∧
      (flatten limits "p" "\x7bk: 'a\x7b\x22'\x7d").run.value = .ok (tabulate []) := by
  intro limits
  have hu : ("a\x7b" : Text).all isLiteral = true := by decide +kernel
  have hv : ("\x22" : Text).all isLiteral = true := by decide +kernel
  have hname : Key.isSegment "k" = true := by decide +kernel
  obtain ⟨hwhole, hsplit, -⟩ := flatten_split limits "p" hname (by decide +kernel) hu hv (by decide +kernel)
    (by decide +kernel) (by decide +kernel)
  exact ⟨⟨hname, hu, hv⟩, by decide +kernel, hsplit, hwhole⟩

/-- A text as long as the limit is lost as one string, and found as a sum. -/
theorem flatten_split_differs :
    let limits : Limits := { maxValueLength := 2 }
    ∃ f g : Flattened, (flatten limits [] "\x7bk: 'ab'\x7d").run.value = .ok f ∧
      (flatten limits [] "\x7bk: 'a' + 'b'\x7d").run.value = .ok g ∧
      (f.entries.entries = [] ∧ f.rejected.toList = []) ∧
      g.entries.entries = ([("k", "ab")] : List (Text × Text)) ∧ g.rejected.toList = [] := by
  intro limits
  refine ⟨_, _, flatten_run [] (by decide +kernel), flatten_run [] (by decide +kernel), ⟨?_, ?_⟩, ?_, ?_⟩
  all_goals decide +kernel

end MessageCatalog.Literal
