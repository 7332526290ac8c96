/-
  MessageCatalog.Proofs.Literal.Scan — what the scan of a literal emits.

  One lemma per kind of front says what one step of the scan does, for any text. After a
  value the cursor stands in the trivia behind it or past its comma, whatever was left of
  the budget; from either place the scan goes on with the next member
  (`scan_past_end`).

  Proved: the scan of an object's members, in any layout, emits its texts in order, each
  under the names that lead to it (`scan_members`); a literal is found from its first
  brace to its last, whatever stands around it (`objectLiteral_source`).
-/

import MessageCatalog.Proofs.Literal.Balance

namespace MessageCatalog.Literal

open Source

/-! ## One step -/

section

variable (limits : Limits) (base : Text) (depth : Nat)

/-- What a property emits, and all that follows it. -/
def scanProperty (name : Text) (c : Code) (r : Text) : List Emission :=
  if c == '{' then
    match closingBrace 1 r with
    | none => []
    | some close =>
      (if limits.maxDepth < depth + 1 then [.tooDeep (Key.under base name)]
        else scan limits (Key.under base name) (depth + 1) (Text.upTo r close)) ++
      scan limits base depth close.tail
  else if isQuote c then
    ((readValue limits (c :: r)).value.map (Emission.leaf depth (Key.under base name))).toList ++
      scan limits base depth (skipValue [] limits.maxValueLength (readValue limits (c :: r)).rest)
  else scan limits base depth (skipValue [] limits.maxValueLength (c :: r))

theorem scan_eq (t : Text) :
    scan limits base depth t =
      match front limits t with
      | .nothing => []
      | .noise rest => scan limits base depth rest
      | .property name c r => scanProperty limits base depth name c r := by
  rw [scan.eq_def]
  split
  · rename_i h
    rw [h]
  · rename_i rest h
    rw [h]
  · rename_i name c r h
    rw [h]
    simp only [scanProperty]
    by_cases hc : (c == '{') = true
    · rw [if_pos hc, if_pos hc]
      split <;> (rename_i hclose; rw [hclose])
    · rw [if_neg hc, if_neg hc]
      split <;> rfl

variable {limits base depth} {t : Text}

/-- Only what is left after trivia counts. -/
theorem scan_congr {u : Text} (h : skipTrivia t = skipTrivia u) :
    scan limits base depth t = scan limits base depth u := by
  rw [scan_eq, scan_eq, front, front, h]

theorem scan_blank (h : skipTrivia t = []) : scan limits base depth t = [] := by
  rw [scan_eq, front, h]

/-- What starts no name is passed over. -/
theorem scan_noise {c : Code} {s : Text} (h : skipTrivia t = c :: s) (hc : startsName c = false) :
    scan limits base depth t = scan limits base depth s := by
  rw [scan_eq, front, h]
  simp only [hc, Bool.false_eq_true, if_false]

theorem scan_comma {s : Text} (h : skipTrivia t = (',' : Code) :: s) :
    scan limits base depth t = scan limits base depth s :=
  scan_noise h rfl

/-! ## Past a value -/

theorem skipTrivia_blank {c : Code} (h : isBlank c = true) (r : Text) : skipTrivia (c :: r) = skipTrivia r := by
  rw [skipTrivia, if_pos h]

theorem blank_unbracketed {c : Code} (h : isBlank c = true) : c ≠ ',' ∧ closerOf c = none := by
  simp [isBlank] at h
  simp [closerOf]
  grind

/-- Wherever passing a value stops in trivia, the scan goes on as from what follows it, if it
does so from wherever passing stops there. `far` code points are out of reach. -/
theorem scan_past_trivia {far : Nat} {es : List Emission} (hscan : scan limits base depth t = es)
    (hpast : ∀ budget, (skipTrivia t).length ≤ budget + far →
      scan limits base depth (skipValue [] budget (skipTrivia t)) = es)
    {budget : Nat} (hb : t.length ≤ budget + far) : scan limits base depth (skipValue [] budget t) = es := by
  induction t generalizing budget with
  | nil => rw [skipValue_nil, hscan]
  | cons c r ih =>
    cases budget with
    | zero => rw [skipValue_zero, hscan]
    | succ b =>
      by_cases hblank : isBlank c = true
      · have hr := skipTrivia_blank hblank r
        rw [hr] at hpast
        rw [scan_congr hr] at hscan
        by_cases hn : c = '\n'
        · rw [skipValue_end (.inr hn), hscan]
        · obtain ⟨hq, hs, -, hc⟩ := blank_inert hblank
          obtain ⟨hcomma, ho⟩ := blank_unbracketed hblank
          rw [skipValue_inert hq hs ho (by simp) (fun _ => ⟨hcomma, hc, hn⟩)]
          exact ih hscan hpast (by rw [List.length_cons] at hb; omega)
      · by_cases hc : opensComment c r = true
        · -- in front of a line comment the cursor stays, a block comment it passes
          by_cases hl : Text.headIs '/' r = true
          · rw [skipValue_line hc hl, hscan]
          · have hle := length_skipTrivia_le (c :: r)
            rw [List.length_cons] at hb hle
            rw [skipValue_comment b hc (fun _ => by simpa using hl)]
            exact hpast _ (by omega)
        · rw [skipTrivia, if_neg hblank, if_neg hc] at hpast
          exact hpast _ hb

theorem scan_past_end (ht : Ends t) (budget : Nat) :
    scan limits base depth (skipValue [] budget t) = scan limits base depth t := by
  refine scan_past_trivia rfl (fun budget _ => ?_) (Nat.le_add_left t.length budget)
  rcases ht with ht | ⟨s, ht⟩
  · rw [ht, skipValue_nil, scan_blank ht, scan_blank skipTrivia_nil]
  · rw [ht, scan_comma ht]
    cases budget with
    | zero => rw [skipValue_zero, scan_comma (skipTrivia_cons (by decide) (by decide) s)]
    | succ b => rw [skipValue_end (.inl rfl)]

end

/-! ## Members -/

theorem tail_ends (l : Tail) : Ends l.print := by
  cases l with
  | last gap => exact .inl (skipTrivia_gap_nil gap)
  | comma gap rest =>
    rw [Tail.print, Ends, skipTrivia_gap, skipTrivia_cons (by decide) (by decide)]
    exact .inr ⟨rest.print, rfl⟩

theorem expression_starts (e : Expression) :
    ∃ c r, e.print = c :: r ∧ isBlank c = false ∧ c ≠ '/' ∧ isQuote c = false ∧ c ≠ '{' := by
  have h := e.startsOther
  rw [Expression.print]
  cases hp : e.pieces with
  | none => rw [hp] at h; cases h
  | string s rest => rw [hp] at h; cases h
  | code c hc rest =>
    rw [hp] at h
    obtain ⟨hq, hs, ho, -⟩ := ordinary_inert hc
    exact ⟨c, rest.print, rfl, by simpa [Pieces.startsOther] using h, hs, hq, ho⟩
  | group b inside rest =>
    rw [hp] at h
    refine ⟨b.opening, _, rfl, ?_⟩
    cases b with
    | round => decide
    | square => decide
    | curly => cases h

variable {limits : Limits}

/-- What starts with a quote is read, and what is left of the value is passed. -/
theorem scan_read (base : Text) (depth : Nat) {head : Head} (hh : head.fits limits = true) {q : Code}
    (hq : isQuote q = true) {r u : Text} {v : Option Text} (hread : readValue limits (q :: r) = ⟨v, u⟩) :
    scan limits base depth (head.print ++ q :: r) =
      (v.map (Emission.leaf depth (Key.under base head.name.denoted))).toList ++
        scan limits base depth (skipValue [] limits.maxValueLength u) := by
  obtain ⟨hb, hs⟩ := quote_solid hq
  have hbrace : ¬ (q == '{') = true := mt beq_iff_eq.1 (quote_ne hq (by decide))
  rw [scan_eq, front_head limits head hh (skipTrivia_cons hb hs _)]
  simp only [scanProperty, if_neg hbrace, if_pos hq, hread]

/-- Any other value is passed, unless it is an object. -/
theorem scan_other (base : Text) (depth : Nat) {head : Head} (hh : head.fits limits = true) {c : Code} {r : Text}
    (hc : skipTrivia (c :: r) = c :: r) (hq : isQuote c = false) (hbrace : c ≠ '{') :
    scan limits base depth (head.print ++ c :: r) =
      scan limits base depth (skipValue [] limits.maxValueLength (c :: r)) := by
  rw [scan_eq, front_head limits head hh hc]
  simp only [scanProperty, if_neg (mt beq_iff_eq.1 hbrace), hq, Bool.false_eq_true, if_false]

/-- A string, or a sum that starts with one, is emitted if it can be read. -/
theorem scan_text (base : Text) (depth : Nat) {head : Head} (hh : head.fits limits = true) (s : Quoted) {u t : Text}
    {v : Option Text} (hread : readValue limits (s.print ++ u) = ⟨v, t⟩) (ht : Ends t) :
    scan limits base depth (head.print ++ (s.print ++ u)) =
      (v.map (Emission.leaf depth (Key.under base head.name.denoted))).toList ++ scan limits base depth t := by
  rw [← scan_past_end ht]
  exact scan_read base depth hh s.isQuote hread

theorem scan_leaf (base : Text) (depth : Nat) {head : Head} (hh : head.fits limits = true) {value : Leaf}
    (hv : value.fits limits = true) {t : Text} (ht : Ends t) :
    scan limits base depth (head.print ++ (value.print ++ t)) =
      (value.denoted?.map (Emission.leaf depth (Key.under base head.name.denoted))).toList ++
        scan limits base depth t := by
  cases value with
  | text first more =>
    have hread := readValue_print hv ht
    rw [Leaf.print, List.append_assoc] at hread ⊢
    exact scan_text base depth hh first hread ht
  | other e =>
    obtain ⟨c, r, he, hb, hs, hq, hc⟩ := expression_starts e
    have hlen : e.pieces.print.length ≤ limits.maxValueLength := of_decide_eq_true hv
    have hpast := skipValue_pieces e.pieces [] (fun _ => e.isUndivided) hlen t
    rw [← Expression.print, he, List.map_nil] at hpast
    simp only [Leaf.print, he, List.cons_append] at hpast ⊢
    rw [scan_other base depth hh (skipTrivia_cons hb hs _) hq hc, hpast, scan_past_end ht]
    rfl

/-- An object is scanned below its name, unless it is too deep. -/
theorem scan_braced (base : Text) (depth : Nat) {head : Head} (hh : head.fits limits = true) {inner t : Text}
    (hclose : closingBrace 1 (inner ++ ('}' : Code) :: t) = some (('}' : Code) :: t)) :
    scan limits base depth (head.print ++ ('{' : Code) :: (inner ++ ('}' : Code) :: t)) =
      (if limits.maxDepth < depth + 1 then [.tooDeep (Key.under base head.name.denoted)]
        else scan limits (Key.under base head.name.denoted) (depth + 1) inner) ++
      scan limits base depth t := by
  rw [scan_eq, front_head limits head hh (skipTrivia_cons (by decide) (by decide) _)]
  simp only [scanProperty, beq_self_eq_true, if_true, hclose, upTo_append, List.tail_cons]

theorem scan_object (base : Text) (depth : Nat) {head : Head} (hh : head.fits limits = true) (inner : Members)
    (t : Text) :
    scan limits base depth (head.print ++ ('{' : Code) :: (inner.print ++ ('}' : Code) :: t)) =
      (if limits.maxDepth < depth + 1 then [.tooDeep (Key.under base head.name.denoted)]
        else scan limits (Key.under base head.name.denoted) (depth + 1) inner.print) ++
      scan limits base depth t :=
  scan_braced base depth hh (closingBrace_object inner t)

theorem scan_separator (base : Text) (depth : Nat) (gap : Gap) (t : Text) :
    scan limits base depth (gap.print ++ (',' : Code) :: t) = scan limits base depth t :=
  scan_comma (by rw [skipTrivia_gap, skipTrivia_cons (by decide) (by decide)])

mutual

/-- What the members of an object emit that stands at `base`. -/
def Source.Members.emissions (limits : Limits) (base : Text) (depth : Nat) : Members → List Emission
  | .done _ => []
  | .leaf head value tail =>
    (value.denoted?.map (Emission.leaf depth (Key.under base head.name.denoted))).toList ++
      tail.emissions limits base depth
  | .object head _ inner tail =>
    (if limits.maxDepth < depth + 1 then [.tooDeep (Key.under base head.name.denoted)]
      else inner.emissions limits (Key.under base head.name.denoted) (depth + 1)) ++
      tail.emissions limits base depth

def Source.Tail.emissions (limits : Limits) (base : Text) (depth : Nat) : Tail → List Emission
  | .last _ => []
  | .comma _ rest => rest.emissions limits base depth

end

mutual

/-- The scan of members emits what they emit, whatever stands between their tokens. -/
theorem scan_members (m : Members) (hm : m.fits limits = true) (base : Text) (depth : Nat) :
    scan limits base depth m.print = m.emissions limits base depth := by
  match m with
  | .done gap => exact scan_blank (skipTrivia_gap_nil gap)
  | .leaf head value tail =>
    simp only [Members.fits, Bool.and_eq_true] at hm
    obtain ⟨⟨hh, hv⟩, hl⟩ := hm
    rw [Members.print, scan_leaf base depth hh hv (tail_ends tail), scan_tail tail hl, Members.emissions]
  | .object head _ inner tail =>
    simp only [Members.fits, Bool.and_eq_true] at hm
    obtain ⟨⟨hh, hi⟩, hl⟩ := hm
    rw [Members.print, scan_object base depth hh, scan_members inner hi, scan_tail tail hl, Members.emissions]

theorem scan_tail (l : Tail) (hl : l.fits limits = true) (base : Text) (depth : Nat) :
    scan limits base depth l.print = l.emissions limits base depth := by
  match l with
  | .last gap => exact scan_blank (skipTrivia_gap_nil gap)
  | .comma gap rest =>
    rw [Tail.print, scan_separator, scan_members rest hl, Tail.emissions]

end

/-! ## The literal -/

theorem inside_braced (inner after : Text) :
    Braced.inside ⟨('{' : Code) :: (inner ++ ('}' : Code) :: after), ('}' : Code) :: after⟩ = inner := by
  rw [Braced.inside, ← List.cons_append, upTo_append]
  rfl

section

variable {inner after : Text} (hclose : closingBrace 1 (inner ++ ('}' : Code) :: after) = some (('}' : Code) :: after))

include hclose

theorem objectLiteral_braced (before : Gap) :
    objectLiteral (before.print ++ ('{' : Code) :: (inner ++ ('}' : Code) :: after)) =
      some ⟨('{' : Code) :: (inner ++ ('}' : Code) :: after), ('}' : Code) :: after⟩ := by
  have hskip : skipWrappers (before.print ++ ('{' : Code) :: (inner ++ ('}' : Code) :: after)) =
      ('{' : Code) :: (inner ++ ('}' : Code) :: after) := by
    rw [skipWrappers, skipTrivia_gap, skipTrivia_cons (by decide) (by decide), skipWrappers.go]
    rfl
  simp only [objectLiteral, hskip, beq_self_eq_true, if_true]
  rw [closingBrace_open, Int.zero_add, hclose]
  rfl

theorem emissions_braced (base : Text) (before : Gap) :
    emissions limits base (before.print ++ ('{' : Code) :: (inner ++ ('}' : Code) :: after)) =
      scan limits base 0 inner := by
  simp only [emissions, objectLiteral_braced hclose, inside_braced]

end

theorem objectLiteral_source (before : Gap) (m : Members) (after : Text) :
    objectLiteral (before.print ++ ('{' : Code) :: (m.print ++ ('}' : Code) :: after)) =
      some ⟨('{' : Code) :: (m.print ++ ('}' : Code) :: after), ('}' : Code) :: after⟩ :=
  objectLiteral_braced (closingBrace_object m after) before

theorem inside_source (m : Members) (after : Text) :
    Braced.inside ⟨('{' : Code) :: (m.print ++ ('}' : Code) :: after), ('}' : Code) :: after⟩ = m.print :=
  inside_braced m.print after

theorem emissions_source {m : Members} (hm : m.fits limits = true) (base : Text) (before : Gap) (after : Text) :
    emissions limits base (before.print ++ ('{' : Code) :: (m.print ++ ('}' : Code) :: after)) =
      m.emissions limits base 0 := by
  rw [emissions_braced (closingBrace_object m after), scan_members m hm]

end MessageCatalog.Literal
