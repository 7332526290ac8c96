/-
  MessageCatalog.Proofs.Literal.Tokens — expressions, and passing over them.

  An expression is any row of tokens with balanced brackets: code, strings, templates and
  what brackets enclose, with white space and comments in front of each. A template has no
  other template in its substitutions, and a slash outside strings is a code point like any
  other unless it opens a comment with what follows it.

  Proved: an expression leaves the brace counter where it was (`closingBrace_tokens`). With a
  bracket open around it, all of it is passed within its own length; without one, all up to
  the first token that stands behind a line break or is a comma (`skipValue_tokens`).
-/

import MessageCatalog.Proofs.Literal.Scan

namespace MessageCatalog.Literal

open Source

/-! ## Syntax -/

def isCode (c : Code) : Bool := (isOrdinary c || c == '/') && !isBlank c

/-- Whether a template ends right behind this body. -/
def isClosed : Text → Bool
  | [] => true
  | c :: r =>
    if c == '\\' then
      match r with
      | [] => false
      | _ :: s => isClosed s
    else c != '`' && isClosed r

inductive Source.Tokens where
  | done
  | code (gap : Gap) (c : Code) (isCode : isCode c = true) (rest : Tokens)
  | string (gap : Gap) (s : Quoted) (rest : Tokens)
  /-- In backticks; there may be substitutions in the body. -/
  | template (gap : Gap) (body : Text) (isClosed : isClosed body = true) (rest : Tokens)
  | group (gap : Gap) (b : Bracket) (inside : Tokens) (close : Gap) (rest : Tokens)

namespace Source.Tokens

def print : Tokens → Text
  | .done => []
  | .code gap c _ rest => gap.print ++ c :: rest.print
  | .string gap s rest => gap.print ++ (s.print ++ rest.print)
  | .template gap body _ rest => gap.print ++ ('`' : Code) :: (body ++ ('`' : Code) :: rest.print)
  | .group gap b inside close rest =>
    gap.print ++ b.opening :: ((inside.print ++ close.print) ++ b.closing :: rest.print)

section

variable (gap : Gap) (rest : Tokens) (t : Text)

theorem done_append : Tokens.done.print ++ t = t := rfl

theorem code_append (c : Code) (h : isCode c = true) :
    (Tokens.code gap c h rest).print ++ t = gap.print ++ c :: (rest.print ++ t) := by
  rw [print, List.append_assoc, List.cons_append]

theorem string_append (s : Quoted) :
    (Tokens.string gap s rest).print ++ t = gap.print ++ s.quote :: (s.body ++ s.quote :: (rest.print ++ t)) := by
  simp [print, Quoted.print]

theorem template_append (body : Text) (h : isClosed body = true) :
    (Tokens.template gap body h rest).print ++ t =
      gap.print ++ ('`' : Code) :: (body ++ ('`' : Code) :: (rest.print ++ t)) := by
  simp [print]

theorem group_append (b : Bracket) (inside : Tokens) (close : Gap) :
    (Tokens.group gap b inside close rest).print ++ t =
      gap.print ++ b.opening :: ((inside.print ++ close.print) ++ b.closing :: (rest.print ++ t)) := by
  simp [print]

end

/-- Whether every slash is code in front of what follows it, which is `behind` at the end. -/
def isSlashed (behind : Text) : Tokens → Bool
  | .done => true
  | .code _ c _ rest => !opensComment c (rest.print ++ behind) && rest.isSlashed behind
  | .string _ _ rest | .template _ _ _ rest => rest.isSlashed behind
  | .group _ b inside close rest =>
    inside.isSlashed (close.print ++ b.closing :: (rest.print ++ behind)) && rest.isSlashed behind

end Source.Tokens

/-- A line feed or a line comment, and no block comment in front of it. -/
def Source.Gap.breaks : Gap → Bool
  | [] => false
  | .blank c _ :: g => c == '\n' || Gap.breaks g
  | .line _ _ :: _ => true
  | .block _ _ :: _ => false

/-- The tokens left where passing them stops, the brackets `bs` being open: none if there are
any, else those from the first one on that stands behind a line break or is a comma. -/
def Source.Tokens.unpassed (bs : List Bracket) : Tokens → Tokens
  | .done => .done
  | .code gap c h rest =>
    if bs.isEmpty && (gap.breaks || c == ',') then .code gap c h rest else rest.unpassed bs
  | .string gap s rest => if bs.isEmpty && gap.breaks then .string gap s rest else rest.unpassed bs
  | .template gap body h rest => if bs.isEmpty && gap.breaks then .template gap body h rest else rest.unpassed bs
  | .group gap b inside close rest =>
    if bs.isEmpty && gap.breaks then .group gap b inside close rest else rest.unpassed bs

/-! ## Single tokens -/

theorem code_inert {c : Code} (h : isCode c = true) :
    isBlank c = false ∧ isQuote c = false ∧ ∀ b : Bracket, c ≠ b.opening ∧ c ≠ b.closing := by
  rw [isCode, Bool.and_eq_true, Bool.or_eq_true, beq_iff_eq, Bool.not_eq_true'] at h
  obtain ⟨ho | rfl, hb⟩ := h
  · exact ⟨hb, (ordinary_inert ho).1, ordinary_unbracketed ho⟩
  · exact ⟨hb, by decide, fun b => by cases b <;> decide⟩

theorem code_closerOf {c : Code} (h : isCode c = true) : closerOf c = none := by
  have hc := (code_inert h).2.2
  have hr : c ≠ '(' := (hc .round).1
  have hs : c ≠ '[' := (hc .square).1
  have hb : c ≠ '{' := (hc .curly).1
  rw [closerOf, if_neg (by simpa using hr), if_neg (by simpa using hs), if_neg (by simpa using hb)]

theorem skipTrivia_code {c : Code} {t : Text} (h : isCode c = true) (hs : ¬ opensComment c t = true) :
    skipTrivia (c :: t) = c :: t := by
  rw [skipTrivia, if_neg (by simp [(code_inert h).1]), if_neg hs]

theorem skipTrivia_quote {q : Code} (h : isQuote q = true) (t : Text) : skipTrivia (q :: t) = q :: t :=
  skipTrivia_cons (quote_solid h).1 (quote_solid h).2 t

theorem opening_solid (b : Bracket) : isBlank b.opening = false ∧ b.opening ≠ '/' := by cases b <;> decide

theorem closing_solid (b : Bracket) : isBlank b.closing = false ∧ b.closing ≠ '/' := by cases b <;> decide

theorem skipTrivia_opening (b : Bracket) (t : Text) : skipTrivia (b.opening :: t) = b.opening :: t :=
  skipTrivia_cons (opening_solid b).1 (opening_solid b).2 t

theorem skipTrivia_closing (b : Bracket) (t : Text) : skipTrivia (b.closing :: t) = b.closing :: t :=
  skipTrivia_cons (closing_solid b).1 (closing_solid b).2 t

theorem skipString_template {body : Text} (h : isClosed body = true) (t : Text) :
    skipString '`' (body ++ ('`' : Code) :: t) = t := by
  fun_induction isClosed body with
  | case1 => exact skipString_close (by decide) t
  | case2 => cases h
  | case3 c hc d s ih =>
    obtain rfl := beq_iff_eq.1 hc
    rw [List.cons_append, List.cons_append, skipString_escape, ih h]
  | case4 c r hc ih =>
    simp only [Bool.and_eq_true, bne_iff_ne, beq_iff_eq] at h hc
    rw [List.cons_append, skipString_raw hc h.1 (.inl rfl), ih h.2]

theorem blank_unbalanced {c : Code} (h : isBlank c = true) (b : Bracket) : c ≠ b.closing := by
  rintro rfl
  rw [(closing_solid b).1] at h
  cases h

/-! ## Counting braces -/

theorem closingBrace_tokens (p : Tokens) {depth : Int} (hd : 1 ≤ depth) {t : Text} (hs : p.isSlashed t = true) :
    closingBrace depth (p.print ++ t) = closingBrace depth t := by
  induction p generalizing depth t with
  | done => rfl
  | code gap c h rest ih =>
    simp only [Tokens.isSlashed, Bool.and_eq_true, Bool.not_eq_true'] at hs
    obtain ⟨-, hq, hb⟩ := code_inert h
    rw [Tokens.code_append, closingBrace_gap,
      closingBrace_code hq (by simp [hs.1]) (hb .curly).1 (hb .curly).2, ih hd hs.2]
  | string gap s rest ih =>
    rw [Tokens.string_append, closingBrace_gap,
      closingBrace_quoted s.isQuote (skipString_plain s.isQuote s.isPlain _), ih hd hs]
  | template gap body h rest ih =>
    rw [Tokens.template_append, closingBrace_gap,
      closingBrace_quoted Quoted.isQuote_template (skipString_template h _), ih hd hs]
  | group gap b inside close rest ih₁ ih₂ =>
    simp only [Tokens.isSlashed, Bool.and_eq_true] at hs
    rw [Tokens.group_append, closingBrace_gap,
      closingBrace_group b hd fun hd => by rw [List.append_assoc, ih₁ hd hs.1, closingBrace_gap], ih₂ hd hs.2]

/-! ## Passing -/

section

variable {bs : List Bracket} {t : Text}

theorem skipValue_trivia (n : Nat) {c : Code} {r g : Text} (hg : g ++ t = c :: r) (h : opensComment c r = true)
    (hl : bs = [] → Text.headIs '/' r = false) (ht : skipTrivia (g ++ t) = t) :
    skipValue (bs.map Bracket.closing) (g.length + n) (g ++ t) = skipValue (bs.map Bracket.closing) n t := by
  have hlength := congrArg List.length hg
  have hle := length_skipTrivia_lt h
  rw [hg] at ht ⊢
  rw [ht] at hle
  simp only [List.length_append, List.length_cons] at hlength hle
  obtain ⟨k, hk⟩ : ∃ k, g.length = k + 1 := ⟨g.length - 1, by omega⟩
  rw [hk, Nat.add_right_comm, skipValue_comment _ h fun e => hl (List.map_eq_nil_iff.1 e), ht]
  congr 1
  omega

theorem skipValue_gap (g : Gap) (n : Nat) (hg : bs = [] → g.breaks = false) (ht : skipTrivia t = t) :
    skipValue (bs.map Bracket.closing) (g.print.length + n) (g.print ++ t) =
      skipValue (bs.map Bracket.closing) n t := by
  induction g with
  | nil => rw [show Gap.print [] = [] from rfl, List.nil_append, List.length_nil, Nat.zero_add]
  | cons x g ih =>
    have hskip : skipTrivia (x.print ++ Gap.print g ++ t) = t := by
      rw [List.append_assoc, skipTrivia_trivium, skipTrivia_gap, ht]
    rw [show Gap.print (x :: g) = x.print ++ Gap.print g from rfl]
    cases x with
    | blank c hc =>
      obtain ⟨hq, hs, -, hbrace⟩ := blank_inert hc
      obtain ⟨hcomma, ho⟩ := blank_unbracketed hc
      have hhead : (bs.map Bracket.closing).head? ≠ some c := by
        cases bs with
        | nil => simp
        | cons b bs => simpa using (blank_unbalanced hc b).symm
      have hbreaks : bs = [] → c ≠ '\n' ∧ Gap.breaks g = false := fun e => by
        have := hg e
        rwa [Gap.breaks, Bool.or_eq_false_iff, beq_eq_false_iff_ne] at this
      have hsplit : 1 + (Gap.print g).length + n = (Gap.print g).length + n + 1 := by omega
      rw [Trivium.print, List.singleton_append, List.cons_append, List.length_cons, Nat.add_right_comm,
        skipValue_inert hq hs ho hhead fun e => ⟨hcomma, hbrace, (hbreaks (List.map_eq_nil_iff.1 e)).1⟩,
        ih fun e => (hbreaks e).2]
    | line body _ => exact skipValue_trivia n rfl rfl (fun e => absurd (hg e) (by simp [Gap.breaks])) hskip
    | block body _ => exact skipValue_trivia n rfl rfl (fun _ => rfl) hskip

/-! ### Tokens

Each is passed with the gap in front of it. -/

theorem skipValue_codeToken (gap : Gap) (n : Nat) {c : Code} (h : isCode c = true) (hs : ¬ opensComment c t = true)
    (he : bs = [] → (gap.breaks || c == ',') = false) :
    skipValue (bs.map Bracket.closing) (gap.print.length + (1 + n)) (gap.print ++ c :: t) =
      skipValue (bs.map Bracket.closing) n t := by
  obtain ⟨hblank, hq, hbracket⟩ := code_inert h
  have hhead : (bs.map Bracket.closing).head? ≠ some c := by
    cases bs with
    | nil => simp
    | cons b bs => simpa using (hbracket b).2.symm
  have hend : bs.map Bracket.closing = [] → c ≠ ',' ∧ c ≠ '}' ∧ c ≠ '\n' := fun e => by
    have := he (List.map_eq_nil_iff.1 e)
    rw [Bool.or_eq_false_iff, beq_eq_false_iff_ne] at this
    refine ⟨this.2, (hbracket .curly).2, ?_⟩
    rintro rfl
    cases hblank
  rw [skipValue_gap gap _ (fun e => (Bool.or_eq_false_iff.1 (he e)).1) (skipTrivia_code h hs), Nat.add_comm 1 n,
    skipValue_code hq hs (code_closerOf h) hhead hend]

theorem skipValue_quotedToken (gap : Gap) (n : Nat) {q : Code} (hq : isQuote q = true) {body : Text}
    (hskip : skipString q (body ++ q :: t) = t) (he : bs = [] → gap.breaks = false) :
    skipValue (bs.map Bracket.closing) (gap.print.length + (body.length + 2 + n))
        (gap.print ++ q :: (body ++ q :: t)) =
      skipValue (bs.map Bracket.closing) n t := by
  rw [skipValue_gap gap _ he (skipTrivia_quote hq _), skipValue_quoted hq n hskip]

theorem skipValue_groupToken (gap : Gap) (n : Nat) (b : Bracket) {inside : Text} (he : bs = [] → gap.breaks = false)
    (hinside : ∀ n, skipValue ((b :: bs).map Bracket.closing) (inside.length + n) (inside ++ b.closing :: t) =
      skipValue ((b :: bs).map Bracket.closing) n (b.closing :: t)) :
    skipValue (bs.map Bracket.closing) (gap.print.length + (inside.length + 2 + n))
        (gap.print ++ b.opening :: (inside ++ b.closing :: t)) =
      skipValue (bs.map Bracket.closing) n t := by
  rw [skipValue_gap gap _ he (skipTrivia_opening b _), skipValue_group b n hinside]

theorem unpassed_nested (p : Tokens) (b : Bracket) : p.unpassed (b :: bs) = .done := by
  induction p <;> simp_all [Tokens.unpassed]

theorem length_unpassed_le (p : Tokens) : (p.unpassed bs).print.length ≤ p.print.length := by
  induction p with
  | done => exact Nat.le_refl _
  | code gap c h rest ih | string gap s rest ih | template gap body h rest ih | group gap b inside close rest _ ih =>
    rw [Tokens.unpassed]
    split
    · exact Nat.le_refl _
    · simp only [Tokens.print, List.length_append, List.length_cons]
      omega

theorem isSlashed_unpassed {p : Tokens} (hs : p.isSlashed t = true) : (p.unpassed bs).isSlashed t = true := by
  induction p with
  | done => rfl
  | code gap c h rest ih | group gap b inside close rest _ ih =>
    rw [Tokens.unpassed]
    split
    · exact hs
    · rw [Tokens.isSlashed, Bool.and_eq_true] at hs
      exact ih hs.2
  | string gap s rest ih | template gap body h rest ih =>
    rw [Tokens.unpassed]
    split
    · exact hs
    · exact ih hs

/-- What brackets enclose is passed as a whole, as none of its tokens is left. -/
theorem skipValue_enclosed (b : Bracket) (inside : Tokens) (close : Gap)
    (hpass : ∀ n, skipValue ((b :: bs).map Bracket.closing) (inside.print.length + n)
        (inside.print ++ (close.print ++ b.closing :: t)) =
      skipValue ((b :: bs).map Bracket.closing) ((inside.unpassed (b :: bs)).print.length + n)
        ((inside.unpassed (b :: bs)).print ++ (close.print ++ b.closing :: t))) (n : Nat) :
    skipValue ((b :: bs).map Bracket.closing) ((inside.print ++ close.print).length + n)
        ((inside.print ++ close.print) ++ b.closing :: t) =
      skipValue ((b :: bs).map Bracket.closing) n (b.closing :: t) := by
  rw [List.length_append, List.append_assoc, Nat.add_assoc, hpass, unpassed_nested, Tokens.done_append, Tokens.print,
    List.length_nil, Nat.zero_add]
  exact skipValue_gap close n (by simp) (skipTrivia_closing b t)

theorem skipValue_tokens (p : Tokens) (bs : List Bracket) (n : Nat) (hs : p.isSlashed t = true) :
    skipValue (bs.map Bracket.closing) (p.print.length + n) (p.print ++ t) =
      skipValue (bs.map Bracket.closing) ((p.unpassed bs).print.length + n) ((p.unpassed bs).print ++ t) := by
  have hgo {stop : Bool} (h : ¬ (bs.isEmpty && stop) = true) : bs = [] → stop = false := by
    rintro rfl
    simpa using h
  induction p generalizing bs n t with
  | done => rfl
  | code gap c h rest ih =>
    simp only [Tokens.isSlashed, Bool.and_eq_true, Bool.not_eq_true'] at hs
    rw [Tokens.unpassed]
    split
    · rfl
    rename_i hstop
    have hlength : (Tokens.code gap c h rest).print.length + n =
        gap.print.length + (1 + (rest.print.length + n)) := by
      simp [Tokens.print]
      omega
    rw [hlength, Tokens.code_append, skipValue_codeToken gap _ h (by simp [hs.1]) (hgo hstop), ih bs n hs.2 hgo]
  | string gap s rest ih =>
    rw [Tokens.unpassed]
    split
    · rfl
    rename_i hstop
    have hlength : (Tokens.string gap s rest).print.length + n =
        gap.print.length + (s.body.length + 2 + (rest.print.length + n)) := by
      simp [Tokens.print, Quoted.print]
      omega
    have hskip := skipString_plain s.isQuote s.isPlain (rest.print ++ t)
    rw [hlength, Tokens.string_append, skipValue_quotedToken gap _ s.isQuote hskip (hgo hstop), ih bs n hs hgo]
  | template gap body h rest ih =>
    rw [Tokens.unpassed]
    split
    · rfl
    rename_i hstop
    have hlength : (Tokens.template gap body h rest).print.length + n =
        gap.print.length + (body.length + 2 + (rest.print.length + n)) := by
      simp [Tokens.print]
      omega
    rw [hlength, Tokens.template_append,
      skipValue_quotedToken gap _ Quoted.isQuote_template (skipString_template h _) (hgo hstop), ih bs n hs hgo]
  | group gap b inside close rest ih₁ ih₂ =>
    simp only [Tokens.isSlashed, Bool.and_eq_true] at hs
    rw [Tokens.unpassed]
    split
    · rfl
    rename_i hstop
    have hlength : (Tokens.group gap b inside close rest).print.length + n =
        gap.print.length + ((inside.print ++ close.print).length + 2 + (rest.print.length + n)) := by
      simp [Tokens.print]
      omega
    have hinside := skipValue_enclosed b inside close fun n => ih₁ (b :: bs) n hs.1 (by simp)
    rw [hlength, Tokens.group_append, skipValue_groupToken gap _ b (hgo hstop) hinside, ih₂ bs n hs.2 hgo]

theorem skipValue_inside (b : Bracket) (inside : Tokens) (close : Gap) (n : Nat)
    (hs : inside.isSlashed (close.print ++ b.closing :: t) = true) :
    skipValue [b.closing] ((inside.print ++ close.print).length + n)
        ((inside.print ++ close.print) ++ b.closing :: t) =
      skipValue [b.closing] n (b.closing :: t) :=
  @skipValue_enclosed [] t b inside close (fun n => skipValue_tokens inside [b] n hs) n

end

end MessageCatalog.Literal
