/-
  MessageCatalog.Proofs.Literal.Templates — templates in templates.

  A template may hold substitutions, and these any tokens, templates too. The counter of
  braces knows nothing of substitutions: a template ends for it at the next backtick that no
  backslash precedes. At a template in a substitution it goes back to counting, through what
  is text in truth, and behind that template it passes code as if it were text.

  Proved: it comes out right in spite of that, and the brace behind the tokens is the one that
  closes the first, if no string or comment that it passes as text has a backtick of its own
  and the text that it counts has its braces in pairs (`closingBraceAt_sequence`); otherwise
  it may take another brace or find none (`closingBraceAt_sequence_differs`).
-/

import MessageCatalog.Literal.Position
import MessageCatalog.Proofs.Literal.Tokens
import MessageCatalog.Proofs.Text

namespace MessageCatalog.Literal

open Source

/-! ## Syntax -/

mutual

/-- Tokens with balanced brackets, with white space and comments between them. -/
inductive Source.Sequence where
  | done
  | trivium (x : Trivium) (rest : Sequence)
  /-- A code point of an identifier, of a number or of punctuation. -/
  | code (c : Code) (ordinary : isOrdinary c = true) (unescaped : c ≠ '\\') (rest : Sequence)
  /-- The backslash and the letter of an escape in an identifier. -/
  | escape (rest : Sequence)
  | string (s : Quoted) (isNameQuote : isNameQuote s.quote = true) (rest : Sequence)
  | group (b : Bracket) (inside rest : Sequence)
  | template (body : Template) (rest : Sequence)

/-- A template behind its opening backtick, or behind one of its substitutions. -/
inductive Source.Template where
  | close (text : Text) (isClosed : isClosed text = true)
  | substitution (text : Text) (isClosed : isClosed text = true) (code : Sequence) (rest : Template)

end

mutual

def Source.Sequence.print : Sequence → Text
  | .done => []
  | .trivium x rest => x.print ++ rest.print
  | .code c _ _ rest => c :: rest.print
  | .escape rest => ('\\' : Code) :: ('u' : Code) :: rest.print
  | .string s _ rest => s.print ++ rest.print
  | .group b inside rest => b.opening :: (inside.print ++ b.closing :: rest.print)
  | .template body rest => ('`' : Code) :: (body.print ++ rest.print)

def Source.Template.print : Template → Text
  | .close text _ => text ++ [('`' : Code)]
  | .substitution text _ code rest =>
    text ++ ('$' : Code) :: Bracket.curly.opening :: (code.print ++ Bracket.curly.closing :: rest.print)

end

/-- Braces in pairs, `level` of them open in front, and neither a quote nor a comment. -/
def isLevel (level : Nat) : Text → Bool
  | [] => level == 0
  | c :: r =>
    if c == '{' then isLevel (level + 1) r
    else if c == '}' then decide (0 < level) && isLevel (level - 1) r
    else !isQuote c && !opensComment c r && isLevel level r

mutual

/-- Whether the counter comes out of the tokens as it got into them. What is `hidden` it passes
as the text of a template, and there it goes by the backticks; the rest it counts. -/
def Source.Sequence.isSteady (hidden : Bool) : Sequence → Bool
  | .done => true
  | .trivium x rest => (!hidden || isClosed x.print) && rest.isSteady hidden
  | .code _ _ _ rest | .escape rest => rest.isSteady hidden
  | .string s _ rest => (!hidden || isClosed s.print) && rest.isSteady hidden
  | .group _ inside rest => inside.isSteady hidden && rest.isSteady hidden
  | .template body rest => body.isSteady (!hidden) && rest.isSteady hidden

def Source.Template.isSteady (hidden : Bool) : Template → Bool
  | .close text _ => hidden || isLevel 0 text
  | .substitution text _ code rest =>
    (hidden || isLevel 0 text) && code.isSteady hidden && rest.isSteady hidden

end

/-! ## Hidden and counted -/

/-- What is left to be counted of a text that is hidden up to the next backtick, or is not. -/
def counted (hidden : Bool) (t : Text) : Text := if hidden then skipString '`' t else t

section

variable {hidden : Bool} {depth : Int}

theorem closingBrace_backtick (t : Text) :
    closingBrace depth (counted hidden (('`' : Code) :: t)) = closingBrace depth (counted (!hidden) t) := by
  cases hidden with
  | false => exact closingBrace_quoted Quoted.isQuote_template rfl depth
  | true => exact congrArg (closingBrace depth) (skipString_close (by decide) t)

theorem skipString_closed {text : Text} (h : isClosed text = true) (t : Text) :
    skipString '`' (text ++ t) = skipString '`' t := by
  fun_induction isClosed text with
  | case1 => rfl
  | case2 => cases h
  | case3 c hc d s ih =>
    obtain rfl := beq_iff_eq.1 hc
    rw [List.cons_append, List.cons_append, skipString_escape, ih h]
  | case4 c r hc ih =>
    simp only [Bool.and_eq_true, bne_iff_ne, beq_iff_eq] at h hc
    rw [List.cons_append, skipString_raw hc h.1 (.inl rfl), ih h.2]

/-- What is closed is passed where it is hidden. Where it is not, the counter has to pass it. -/
theorem closingBrace_counted {text : Text} (h : (!hidden || isClosed text) = true) {t : Text}
    (hcount : closingBrace depth (text ++ t) = closingBrace depth t) :
    closingBrace depth (counted hidden (text ++ t)) = closingBrace depth (counted hidden t) := by
  cases hidden with
  | false => exact hcount
  | true => exact congrArg (closingBrace depth) (skipString_closed h t)

theorem closingBrace_level {level : Nat} {text : Text} (h : isLevel level text = true) {c : Code}
    (hline : c ≠ '/') (hblock : c ≠ '*') (hd : 1 ≤ depth) (t : Text) :
    closingBrace (depth + level) (text ++ c :: t) = closingBrace depth (c :: t) := by
  fun_induction isLevel level text with
  | case1 level =>
    obtain rfl := beq_iff_eq.1 h
    rw [Int.natCast_zero, Int.add_zero, List.nil_append]
  | case2 level d r hd' ih =>
    obtain rfl := beq_iff_eq.1 hd'
    rw [List.cons_append, closingBrace_open, Int.add_assoc, ← Int.natCast_succ, ih h]
  | case3 level d r _ hd' ih =>
    obtain rfl := beq_iff_eq.1 hd'
    simp only [Bool.and_eq_true, decide_eq_true_eq] at h
    obtain ⟨n, rfl⟩ : ∃ n, level = n + 1 := ⟨level - 1, by omega⟩
    rw [List.cons_append, closingBrace_close, if_neg (by omega)]
    have hn : depth + ((n + 1 : Nat) : Int) - 1 = depth + (n : Int) := by omega
    rw [hn]
    exact ih h.2
  | case4 level d r ho hc ih =>
    simp only [Bool.and_eq_true, Bool.not_eq_true'] at h
    obtain ⟨⟨hq, hs⟩, hr⟩ := h
    have hs' : ¬ opensComment d (r ++ c :: t) = true := by
      rw [opensComment, headIs_append hline, headIs_append hblock]
      simpa [opensComment] using hs
    rw [List.cons_append, closingBrace_code hq hs' (by simpa using ho) (by simpa using hc), ih hr]

theorem bracket_raw (b : Bracket) : (b.opening ≠ '\\' ∧ b.opening ≠ '`') ∧ b.closing ≠ '\\' ∧ b.closing ≠ '`' := by
  cases b <;> decide

theorem closingBrace_enclosed (b : Bracket) (hd : 1 ≤ depth) {inside t : Text}
    (hinside : ∀ {depth : Int}, 1 ≤ depth →
      closingBrace depth (counted hidden (inside ++ b.closing :: t)) =
        closingBrace depth (counted hidden (b.closing :: t))) :
    closingBrace depth (counted hidden (b.opening :: (inside ++ b.closing :: t))) =
      closingBrace depth (counted hidden t) := by
  cases hidden with
  | false => exact closingBrace_group b hd hinside
  | true =>
    obtain ⟨⟨ho, ho'⟩, hc, hc'⟩ := bracket_raw b
    have hskip := hinside hd
    simp only [counted, if_true] at hskip ⊢
    rw [skipString_raw ho ho' (.inl rfl), hskip, skipString_raw hc hc' (.inl rfl)]

theorem closingBrace_text {text : Text} (h : (hidden || isLevel 0 text) = true) (hclosed : isClosed text = true)
    {c : Code} (hline : c ≠ '/') (hblock : c ≠ '*') (hd : 1 ≤ depth) (t : Text) :
    closingBrace depth (counted hidden (text ++ c :: t)) = closingBrace depth (counted hidden (c :: t)) := by
  cases hidden with
  | true => exact congrArg (closingBrace depth) (skipString_closed hclosed _)
  | false =>
    have hlevel := closingBrace_level h hline hblock hd t
    rwa [Int.natCast_zero, Int.add_zero] at hlevel

theorem closingBrace_trivium (x : Trivium) (t : Text) : closingBrace depth (x.print ++ t) = closingBrace depth t := by
  rw [← closingBrace_skipTrivia, skipTrivia_trivium, closingBrace_skipTrivia]

end

/-! ## Balanced tokens -/

mutual

/-- The counter comes through the tokens with the depth that it had. -/
theorem closingBrace_sequence (s : Sequence) {hidden : Bool} (h : s.isSteady hidden = true) {depth : Int}
    (hd : 1 ≤ depth) (t : Text) :
    closingBrace depth (counted hidden (s.print ++ t)) = closingBrace depth (counted hidden t) := by
  match s with
  | .done => rfl
  | .trivium x rest =>
    rw [Sequence.isSteady, Bool.and_eq_true] at h
    rw [Sequence.print, List.append_assoc,
      closingBrace_counted h.1 (closingBrace_trivium x _), closingBrace_sequence rest h.2 hd]
  | .code c ho hc rest =>
    obtain ⟨hq, hs, hopen, hclose⟩ := ordinary_inert ho
    have hclosed : isClosed [c] = true := by
      rw [isClosed.eq_def]
      simp only [beq_eq_false_iff_ne.2 hc, bne_iff_ne.2 (quote_ne Quoted.isQuote_template hq).symm]
      rfl
    rw [Sequence.print, ← List.singleton_append, List.append_assoc,
      closingBrace_counted (by rw [hclosed, Bool.or_true]) (closingBrace_cons hq hs hopen hclose depth _),
      closingBrace_sequence rest h hd]
  | .escape rest =>
    have hsplit : (Sequence.escape rest).print ++ t = ("\\u" : Text) ++ (rest.print ++ t) := rfl
    rw [hsplit, closingBrace_counted (Bool.or_true _) (closingBrace_append (by decide) depth _),
      closingBrace_sequence rest h hd]
  | .string x _ rest =>
    rw [Sequence.isSteady, Bool.and_eq_true] at h
    rw [Sequence.print, List.append_assoc,
      closingBrace_counted h.1 (closingBrace_string x depth _), closingBrace_sequence rest h.2 hd]
  | .group b inside rest =>
    rw [Sequence.isSteady, Bool.and_eq_true] at h
    rw [Sequence.print, List.cons_append, List.append_assoc, List.cons_append,
      closingBrace_enclosed b hd fun hd => closingBrace_sequence inside h.1 hd _,
      closingBrace_sequence rest h.2 hd]
  | .template body rest =>
    rw [Sequence.isSteady, Bool.and_eq_true] at h
    rw [Sequence.print, List.cons_append, List.append_assoc, closingBrace_backtick,
      closingBrace_template body h.1 hd, Bool.not_not, closingBrace_sequence rest h.2 hd]

theorem closingBrace_template (body : Template) {hidden : Bool} (h : body.isSteady hidden = true) {depth : Int}
    (hd : 1 ≤ depth) (t : Text) :
    closingBrace depth (counted hidden (body.print ++ t)) = closingBrace depth (counted (!hidden) t) := by
  match body with
  | .close text hclosed =>
    rw [Template.print, List.append_assoc, List.singleton_append,
      closingBrace_text h hclosed (by decide) (by decide) hd, closingBrace_backtick]
  | .substitution text hclosed code rest =>
    simp only [Template.isSteady, Bool.and_eq_true] at h
    obtain ⟨⟨htext, hcode⟩, hrest⟩ := h
    have hdollar (t : Text) : closingBrace depth (counted hidden ([('$' : Code)] ++ t)) =
        closingBrace depth (counted hidden t) :=
      closingBrace_counted (Bool.or_true _) (closingBrace_append (by decide) depth t)
    rw [Template.print, List.append_assoc, List.cons_append, List.cons_append, List.append_assoc, List.cons_append,
      closingBrace_text htext hclosed (by decide) (by decide) hd, ← List.singleton_append, hdollar,
      closingBrace_enclosed .curly hd fun hd => closingBrace_sequence code hcode hd _,
      closingBrace_template rest hrest hd]

end

/-- The brace behind the tokens closes the one in front of them, whatever follows. -/
theorem closingBraceAt_sequence (s : Sequence) (h : s.isSteady false = true) (after : Text) :
    let t : Text := ('{' : Code) :: (s.print ++ ('}' : Code) :: after)
    closingBraceAt t 0 t.length = some (s.print.length + 1) := by
  intro t
  have hclose : closingBrace 0 t = some (('}' : Code) :: after) := by
    have hpass := closingBrace_sequence s h (Int.le_refl 1) (('}' : Code) :: after)
    simp only [counted, Bool.false_eq_true, if_false] at hpass
    rw [closingBrace_open, Int.zero_add, hpass, closingBrace_close, if_pos rfl]
  rw [closingBraceAt, Text.window_whole, hclose, Option.map_some, positionOf]
  congr 1
  simp [t]
  omega

def Source.nested : Sequence :=
  .code 'a' rfl (by decide) (.code ':' rfl (by decide)
    (.template
      (.substitution "x" rfl
        (.code 'g' rfl (by decide) (.group .round
          (.string (.single "\x7d" (by decide +kernel)) rfl (.code ',' rfl (by decide)
            (.template
              (.substitution "b\x7bc\x7d" (by decide +kernel)
                (.string ⟨'"', "`", Quoted.isQuote_double, by decide +kernel⟩ rfl .done) (.close [] rfl))
              .done)))
          .done))
        (.close [] rfl))
      (.code ',' rfl (by decide) (.trivium (.block "\x7d" (by decide)) .done))))

theorem closingBraceAt_sequence_sample :
    Source.nested.isSteady false = true ∧
      closingBraceAt "\x7ba:`x$\x7bg('\x7d',`b\x7bc\x7d$\x7b\"`\"\x7d`)\x7d`,/*\x7d*/\x7d;\x7d" 0 37 = some 34 := by
  have hsteady : Source.nested.isSteady false = true := by decide +kernel
  have hsource : ('{' : Code) :: (Source.nested.print ++ ('}' : Code) :: ";\x7d") =
      "\x7ba:`x$\x7bg('\x7d',`b\x7bc\x7d$\x7b\"`\"\x7d`)\x7d`,/*\x7d*/\x7d;\x7d" := by decide +kernel
  have hclose := closingBraceAt_sequence Source.nested hsteady ";\x7d"
  rw [hsource] at hclose
  exact ⟨hsteady, hclose⟩

/-- A template with nothing but the tokens in its substitution. -/
def Source.Sequence.substituted (code : Sequence) : Sequence :=
  .template (.substitution [] rfl code (.close [] rfl)) .done

/-- A template in a template, the text of which is a brace; a backtick in quotes, and one in a
comment. -/
theorem closingBraceAt_sequence_differs :
    let template : Sequence := .template (.close "\x7d" (by decide +kernel)) .done
    let quoted : Sequence := .string (.single "`" (by decide +kernel)) rfl .done
    let comment : Sequence := .trivium (.block "`" (by decide)) (.code 'a' rfl (by decide) .done)
    let braced (s : Sequence) : Text := ('{' : Code) :: (s.print ++ [('}' : Code)])
    (braced template.substituted = "\x7b`$\x7b`\x7d`\x7d`\x7d" ∧
        closingBraceAt "\x7b`$\x7b`\x7d`\x7d`\x7d" 0 10 = some 5) ∧
      (braced quoted.substituted = "\x7b`$\x7b'`'\x7d`\x7d" ∧
        closingBraceAt "\x7b`$\x7b'`'\x7d`\x7d" 0 10 = none) ∧
      braced comment.substituted = "\x7b`$\x7b/*`*/a\x7d`\x7d" ∧
        closingBraceAt "\x7b`$\x7b/*`*/a\x7d`\x7d" 0 13 = some 10 := by
  refine ⟨⟨?_, ?_⟩, ⟨?_, ?_⟩, ?_, ?_⟩
  all_goals decide +kernel

end MessageCatalog.Literal
