/-
  MessageCatalog.Proofs.Json.Tokens — the tokens of what was written.

  The lexer is a fold, so pieces of text compose, but for one thing: a literal is only
  complete at the first character behind it that does not belong to it. Pieces that leave
  no literal open are told from those that may.

  Proved: what is written for a value is lexed into the tokens of the value
  (`lexes_write`), floating-point numbers apart.
-/

import MessageCatalog.Json.Token
import MessageCatalog.Json.Write

namespace MessageCatalog.Json

/-! ## Pieces of text -/

def Lexer.settle (l : Lexer) : Lexer :=
  match l.place with
  | .literal seen => l.put (Token.ofLiteral seen.reverse)
  | _ => l

theorem finish_settle (l : Lexer) : l.settle.finish = l.finish := by
  obtain ⟨ts, place⟩ := l
  cases place <;> rfl

theorem step_settle (l : Lexer) {c : Code} (hc : isLiteralChar c = false) : l.settle.step c = l.step c := by
  obtain ⟨ts, place⟩ := l
  cases place with
  | literal seen => simp [Lexer.settle, Lexer.step, Lexer.put, hc]
  | _ => rfl

/-- Between tokens, a text that is read as these and leaves nothing open. -/
def Closed (t : Text) (ts : List Token) : Prop :=
  ∀ seen, t.foldl Lexer.step ⟨seen, .between⟩ = ⟨ts.reverse ++ seen, .between⟩

/-- Between tokens, a text that is read as these, the last of which may go on. -/
def Lexes (t : Text) (ts : List Token) : Prop :=
  ∀ seen, (t.foldl Lexer.step ⟨seen, .between⟩).settle = ⟨ts.reverse ++ seen, .between⟩

theorem Closed.lexes {t : Text} {ts : List Token} (h : Closed t ts) :
    Lexes t ts := fun seen => by rw [h seen]; rfl

theorem Closed.append {t u : Text} {ts us : List Token} (ht : Closed t ts) (hu : Closed u us) :
    Closed (t ++ u) (ts ++ us) := fun seen => by
  rw [List.foldl_append, ht, hu, List.reverse_append, List.append_assoc]

theorem Closed.append_lexes {t u : Text} {ts us : List Token} (ht : Closed t ts) (hu : Lexes u us) :
    Lexes (t ++ u) (ts ++ us) := fun seen => by
  rw [List.foldl_append, ht, hu, List.reverse_append, List.append_assoc]

/-- A literal ends where a character follows that cannot belong to it. -/
theorem Lexes.append_closed {t u : Text} {ts us : List Token} {c : Code} (ht : Lexes t ts)
    (hu : Closed (c :: u) us) (hc : isLiteralChar c = false) : Closed (t ++ c :: u) (ts ++ us) := fun seen => by
  have h := hu (ts.reverse ++ seen)
  rw [List.foldl_cons, ← ht seen, step_settle _ hc, ← List.foldl_cons, ← List.foldl_append] at h
  rw [h, List.reverse_append, List.append_assoc]

theorem Lexes.tokens {t : Text} {ts : List Token} (h : Lexes t ts) : Json.tokens t = ts := by
  rw [Json.tokens, ← finish_settle, h []]
  simp [Lexer.finish]

theorem closed_mark {c : Code} {t : Token} (h : Lexer.mark? c = some t) : Closed [c] [t] := fun seen => by
  simp [Lexer.step, Lexer.start, h, Lexer.put]

theorem closed_blanks {t : Text} (h : ∀ c ∈ t, Lexer.isBlank c = true ∧ Lexer.mark? c = none) :
    Closed t [] := by
  intro seen
  induction t with
  | nil => rfl
  | cons c t ih =>
    obtain ⟨hb, hm⟩ := h c (by simp)
    have hc : Lexer.step ⟨seen, .between⟩ c = ⟨seen, .between⟩ := by simp [Lexer.step, Lexer.start, hm, hb]
    rw [List.foldl_cons, hc, ih fun d hd => h d (List.mem_cons_of_mem c hd)]

theorem closed_newLine (level : Nat) : Closed (newLine level) [] := by
  refine closed_blanks fun c hc => ?_
  have hc : c = '\n' ∨ c = ' ' := by
    rcases List.mem_append.1 hc with hc | hc
    · exact .inl (List.mem_singleton.1 hc)
    · exact .inr (List.eq_of_mem_replicate hc)
  rcases hc with rfl | rfl <;> exact ⟨rfl, rfl⟩

/-! ## Quoted text -/

theorem foldl_unit (ts : List Token) (q : Quote) {ds : Text} (hlen : ds.length = 4)
    (hds : ds.all Text.isHexDigit = true) :
    ds.foldl Lexer.step ⟨ts, .unit q []⟩ = ⟨ts, .quoted (q.addUnit (Text.hexValue ds))⟩ := by
  match ds, hlen with
  | [x, y, z, w], _ =>
    simp only [List.all_cons, List.all_nil, Bool.and_true, Bool.and_eq_true] at hds
    obtain ⟨hx, hy, hz, hw⟩ := hds
    simp [Lexer.step, hx, hy, hz, hw]

/-- Control characters are spelled in four digits. -/
theorem hex_control : ∀ c < 32, (Text.hex 4 c).length = 4 ∧ (Text.hex 4 c).all Text.isHexDigit = true ∧
    Text.hexValue (Text.hex 4 c) = c := by
  decide +kernel

theorem foldl_escape (ts : List Token) (seen : Text) (c : Code) :
    (escape c).foldl Lexer.step ⟨ts, .quoted ⟨seen, false⟩⟩ = ⟨ts, .quoted ⟨c :: seen, false⟩⟩ := by
  by_cases h₁ : (c == '"' || c == '\\') = true
  · rw [escape, if_pos h₁]
    rcases Bool.or_eq_true_iff.1 h₁ with h | h
    · rw [beq_iff_eq.1 h]
      rfl
    · rw [beq_iff_eq.1 h]
      rfl
  by_cases h₂ : c = '\n'
  · rw [h₂]
    rfl
  by_cases h₃ : c = '\r'
  · rw [h₃]
    rfl
  by_cases h₄ : c = '\t'
  · rw [h₄]
    rfl
  by_cases h₅ : c = 8
  · rw [h₅]
    rfl
  by_cases h₆ : c = 12
  · rw [h₆]
    rfl
  rw [escape, if_neg h₁, if_neg (mt beq_iff_eq.1 h₂), if_neg (mt beq_iff_eq.1 h₃), if_neg (mt beq_iff_eq.1 h₄),
    if_neg h₅, if_neg h₆]
  by_cases h₇ : c < 32
  · -- a control character is no half of a pair, so nothing is joined
    obtain ⟨hlen, hds, hvalue⟩ := hex_control c h₇
    have hunit : Quote.addUnit ⟨seen, false⟩ c = ⟨c :: seen, false⟩ := by
      simp [Quote.addUnit, isHigh]
      grind
    rw [if_pos h₇, List.foldl_append]
    exact (foldl_unit ts ⟨seen, false⟩ hlen hds).trans (by rw [hvalue, hunit])
  · rw [if_neg h₇, List.foldl_cons, List.foldl_nil]
    rw [Bool.or_eq_true_iff] at h₁
    simp only [Lexer.step, if_neg fun h => h₁ (.inl h), if_neg fun h => h₁ (.inr h), if_neg h₇, Quote.add]

theorem closed_quote (t : Text) : Closed (quote t) [.quoted t] := by
  have hbody : ∀ ts seen, (t.flatMap escape).foldl Lexer.step ⟨ts, .quoted ⟨seen, false⟩⟩ =
      ⟨ts, .quoted ⟨t.reverse ++ seen, false⟩⟩ := by
    intro ts
    induction t with
    | nil => exact fun seen => rfl
    | cons c t ih =>
      intro seen
      rw [List.flatMap_cons, List.foldl_append, foldl_escape, ih, List.reverse_cons, List.append_assoc]
      rfl
  intro seen
  have hopen : ("\"" : Text).foldl Lexer.step ⟨seen, .between⟩ = ⟨seen, .quoted {}⟩ := rfl
  rw [quote, List.foldl_append, List.foldl_append, hopen, hbody]
  simp [Text.ofString, Lexer.step, Lexer.put]

/-! ## Literals -/

theorem literalChar_lt {c : Code} (h : isLiteralChar c = true) : c < 128 := by
  simp [isLiteralChar, Text.isLetter, Text.isUpper, Text.isLower, Text.isDigit] at h
  grind

theorem literalChar_solid {c : Code} (h : isLiteralChar c = true) :
    Lexer.mark? c = none ∧ Lexer.isBlank c = false ∧ (c == '"') = false := by
  have hall : ∀ c < 128, isLiteralChar c = true →
      (Lexer.mark? c).isNone = true ∧ Lexer.isBlank c = false ∧ (c == '"') = false := by decide +kernel
  obtain ⟨hm, hb, hq⟩ := hall c (literalChar_lt h) h
  exact ⟨Option.isNone_iff_eq_none.1 hm, hb, hq⟩

theorem lexes_literal {t : Text} (hne : t ≠ []) (h : t.all isLiteralChar = true) :
    Lexes t [Token.ofLiteral t] := by
  rcases t with _ | ⟨c, t⟩
  · exact absurd rfl hne
  simp only [List.all_cons, Bool.and_eq_true] at h
  obtain ⟨hm, hb, hq⟩ := literalChar_solid h.1
  have hmore : ∀ ts seen, t.foldl Lexer.step ⟨ts, .literal seen⟩ = ⟨ts, .literal (t.reverse ++ seen)⟩ := by
    intro ts
    have ht := List.all_eq_true.1 h.2
    clear h hne
    induction t with
    | nil => exact fun seen => rfl
    | cons d t ih =>
      intro seen
      have hd : Lexer.step ⟨ts, .literal seen⟩ d = ⟨ts, .literal (d :: seen)⟩ := by
        simp [Lexer.step, ht d (by simp)]
      rw [List.foldl_cons, hd, ih fun x hx => ht x (List.mem_cons_of_mem d hx), List.reverse_cons,
        List.append_assoc]
      rfl
  intro seen
  have hstart : Lexer.step ⟨seen, .between⟩ c = ⟨seen, .literal [c]⟩ := by
    simp only [Lexer.step, Lexer.start, hm, hb, hq, h.1, if_true, Bool.false_eq_true, if_false]
  rw [List.foldl_cons, hstart, hmore]
  simp [Lexer.settle, Lexer.put]

theorem ofNat_eq (n : Nat) : Text.ofNat n = (Nat.toDigits 10 n).map Char.toNat := by
  rw [Text.ofNat, Text.ofString, Nat.toList_repr]

theorem isDigit_ofNat (n : Nat) : ∀ c ∈ Text.ofNat n, Text.isDigit c = true := by
  intro c hc
  rw [ofNat_eq] at hc
  obtain ⟨d, hd, rfl⟩ := List.mem_map.1 hc
  have h := Nat.isDigit_of_mem_toDigits (by decide) (by decide) hd
  simpa [Char.isDigit, UInt32.le_iff_toNat_le, Text.isDigit] using h

theorem digitValue_ofNat (n : Nat) : Text.digitValue (Text.ofNat n) = n := by
  have h : ∀ (ds : List Char) (m : Nat), (ds.map Char.toNat).foldl (fun n d => n * 10 + (d - 48)) m =
      Nat.ofDigitChars 10 ds m := by
    intro ds
    induction ds with
    | nil => exact fun m => by rw [Nat.ofDigitChars_nil]; rfl
    | cons d ds ih =>
      intro m
      rw [List.map_cons, List.foldl_cons, ih, Nat.ofDigitChars_cons, Nat.mul_comm]
      rfl
  rw [ofNat_eq, Text.digitValue, h, Nat.ofDigitChars_ten_toDigits]

theorem ofNat_ne_nil (n : Nat) : Text.ofNat n ≠ [] := by
  rw [ofNat_eq]
  simp

/-- Only zero starts with a zero. -/
theorem headIs_ofNat {n : Nat} (h : n ≠ 0) : Text.headIs '0' (Text.ofNat n) = false := by
  rw [ofNat_eq]
  induction n using Nat.base_induction 10 (by decide) with
  | single m hm =>
    have hall : ∀ m < 10, m ≠ 0 → Text.headIs '0' ((Nat.toDigits 10 m).map Char.toNat) = false := by decide +kernel
    exact hall m hm h
  | digit m k hk hm ih =>
    obtain ⟨c, t, ht⟩ := List.exists_cons_of_ne_nil (Nat.toDigits_ne_nil (n := m) (b := 10))
    have := ih (by omega)
    rw [← Nat.toDigits_append_toDigits (by decide) hm hk, ht]
    rwa [ht] at this

theorem whole_ofNat (n : Nat) : whole? (Text.ofNat n) = some (Text.ofNat n, []) := by
  by_cases hn : n = 0
  · rw [hn]
    rfl
  have hhead := headIs_ofNat hn
  have htake : (Text.ofNat n).takeWhile Text.isDigit = Text.ofNat n := by
    rw [← List.append_nil (Text.ofNat n), List.takeWhile_append_of_pos (isDigit_ofNat n)]
    simp
  rw [whole?, htake]
  cases ht : Text.ofNat n with
  | nil => exact absurd ht (ofNat_ne_nil n)
  | cons d ds =>
    rw [ht] at hhead
    have hd : ¬ (d == '0') = true := by
      intro e
      rw [beq_iff_eq.1 e] at hhead
      exact absurd hhead (by simp [Text.headIs])
    simp only [if_neg hd, List.drop_succ_cons, List.drop_length]

theorem headIs_minus_ofNat (n : Nat) : Text.headIs '-' (Text.ofNat n) = false := by
  cases ht : Text.ofNat n with
  | nil => rfl
  | cons d ds =>
    have hd := isDigit_ofNat n d (by simp [ht])
    have : d ≠ '-' := by
      rintro rfl
      exact absurd hd (by decide)
    simpa [Text.headIs] using this

theorem number_ofInt (n : Int) : number? (Text.ofInt n) = some (.int n) := by
  cases n with
  | ofNat n =>
    simp only [Text.ofInt, number?, headIs_minus_ofNat, Bool.false_eq_true, if_false, whole_ofNat]
    simp [digitValue_ofNat]
  | negSucc n =>
    have hminus : Text.headIs '-' (('-' : Code) :: Text.ofNat (n + 1)) = true := rfl
    simp only [Text.ofInt, number?, hminus, if_true, List.tail_cons, whole_ofNat]
    simp [digitValue_ofNat, Int.negSucc_eq]

/-- What has a digit is none of the words, so it is read as a number. -/
theorem literal_number {t : Text} (h : t.any Text.isDigit = true) : literal? t = number? t := by
  have hword : ∀ w : Text, w.any Text.isDigit = false → t ≠ w := by
    intro w hw e
    rw [e, hw] at h
    cases h
  rw [literal?, if_neg (hword _ (by decide)), if_neg (hword _ (by decide)), if_neg (hword _ (by decide)),
    if_neg (hword _ (by decide)), if_neg (hword _ (by decide)), if_neg (hword _ (by decide))]

theorem any_isDigit_ofInt (n : Int) : (Text.ofInt n).any Text.isDigit = true := by
  have hnat : ∀ n, (Text.ofNat n).any Text.isDigit = true := by
    intro n
    obtain ⟨c, t, ht⟩ := List.exists_cons_of_ne_nil (ofNat_ne_nil n)
    exact List.any_eq_true.2 ⟨c, by simp [ht], isDigit_ofNat n c (by simp [ht])⟩
  cases n with
  | ofNat n => exact hnat n
  | negSucc n => rw [Text.ofInt, List.any_cons, hnat, Bool.or_true]

theorem lexes_ofInt (n : Int) : Lexes (Text.ofInt n) [.literal (.int n)] := by
  have hchars : (Text.ofInt n).all isLiteralChar = true := by
    have hnat : ∀ n, (Text.ofNat n).all isLiteralChar = true := fun n =>
      List.all_eq_true.2 fun c hc => by simp [isLiteralChar, isDigit_ofNat n c hc]
    cases n with
    | ofNat n => exact hnat n
    | negSucc n => rw [Text.ofInt, List.all_cons, hnat, Bool.and_true]; rfl
  have hne : Text.ofInt n ≠ [] := by
    intro e
    have := any_isDigit_ofInt n
    rw [e] at this
    cases this
  have h := lexes_literal hne hchars
  rwa [Token.ofLiteral, literal_number (any_isDigit_ofInt n), number_ofInt] at h

/-! ## Values -/

mutual

/-- No floating-point number among the values. -/
def isDiscrete : Data → Bool
  | .float _ => false
  | .list xs | .tuple xs => areDiscrete xs
  | .mapping ps => haveDiscrete ps
  | _ => true

def areDiscrete : List Data → Bool
  | [] => true
  | x :: xs => isDiscrete x && areDiscrete xs

def haveDiscrete : List (Data × Data) → Bool
  | [] => true
  | (_, v) :: ps => isDiscrete v && haveDiscrete ps

end

mutual

def tokensOf : Data → List Token
  | .list xs | .tuple xs => .openArray :: (tokensOfItems xs ++ [.closeArray])
  | .mapping ps => .openObject :: (tokensOfPairs ps ++ [.closeObject])
  | .text t => [.quoted t]
  | d => [.literal d]

def tokensOfItems : List Data → List Token
  | [] => []
  | [x] => tokensOf x
  | x :: xs => tokensOf x ++ .comma :: tokensOfItems xs

def tokensOfPairs : List (Data × Data) → List Token
  | [] => []
  | [(k, v)] => .quoted ((keyText? k).getD []) :: .colon :: tokensOf v
  | (k, v) :: ps => .quoted ((keyText? k).getD []) :: .colon :: (tokensOf v ++ .comma :: tokensOfPairs ps)

end

theorem closed_bracketed {o c : Code} {first last : Token} (ho : Lexer.mark? o = some first)
    (hc : Lexer.mark? c = some last) (level : Nat) {t : Text} {ts : List Token} (ht : Lexes t ts) :
    Closed ([o] ++ newLine (level + 1) ++ t ++ newLine level ++ [c]) (first :: (ts ++ [last])) := by
  have hopen := ((closed_mark ho).append (closed_newLine (level + 1))).append_lexes ht
  have hclose : Closed (('\n' : Code) :: (List.replicate (2 * level) (' ' : Code) ++ [c])) [last] :=
    (closed_newLine level).append (closed_mark hc)
  have := hopen.append_closed hclose rfl
  simpa [newLine, Text.ofString] using this

theorem lexes_separated (level : Nat) {t u : Text} {ts us : List Token} (ht : Lexes t ts) (hu : Lexes u us) :
    Lexes (t ++ "," ++ newLine level ++ u) (ts ++ .comma :: us) := by
  have hcomma : Closed (',' :: newLine level) [.comma] := (closed_mark rfl).append (closed_newLine level)
  have := (ht.append_closed hcomma rfl).append_lexes hu
  simpa [Text.ofString] using this

theorem lexes_member (k : Text) {t : Text} {ts : List Token} (ht : Lexes t ts) :
    Lexes (quote k ++ ": " ++ t) (.quoted k :: .colon :: ts) := by
  have hblank : Closed [(' ' : Code)] [] := closed_blanks (by decide)
  have hcolon : Closed ": " [.colon] := (closed_mark rfl).append hblank
  exact ((closed_quote k).append hcolon).append_lexes ht

mutual

/-- What is written for a value is lexed into its tokens. -/
theorem lexes_write (d : Data) (hd : isDiscrete d = true) (level : Nat) :
    Lexes (writeAt level d) (tokensOf d) := by
  match d with
  | .null => exact lexes_literal (t := "null") (by decide) (by decide)
  | .bool true => exact lexes_literal (t := "true") (by decide) (by decide)
  | .bool false => exact lexes_literal (t := "false") (by decide) (by decide)
  | .int n => exact lexes_ofInt n
  | .float x => cases hd
  | .text t => exact (closed_quote t).lexes
  | .list [] | .tuple [] => exact ((closed_mark rfl).append (closed_mark rfl)).lexes
  | .list (x :: xs) | .tuple (x :: xs) =>
    exact (closed_bracketed rfl rfl level (lexes_items (x :: xs) hd (level + 1))).lexes
  | .mapping [] => exact ((closed_mark rfl).append (closed_mark rfl)).lexes
  | .mapping (p :: ps) => exact (closed_bracketed rfl rfl level (lexes_pairs (p :: ps) hd (level + 1))).lexes

theorem lexes_items (xs : List Data) (h : areDiscrete xs = true) (level : Nat) :
    Lexes (writeItems level xs) (tokensOfItems xs) := by
  match xs with
  | [] => exact fun seen => rfl
  | [x] =>
    simp only [areDiscrete, Bool.and_true] at h
    exact lexes_write x h level
  | x :: y :: xs =>
    rw [areDiscrete, Bool.and_eq_true] at h
    exact lexes_separated level (lexes_write x h.1 level) (lexes_items (y :: xs) h.2 level)

theorem lexes_pairs (ps : List (Data × Data)) (h : haveDiscrete ps = true) (level : Nat) :
    Lexes (writePairs level ps) (tokensOfPairs ps) := by
  match ps with
  | [] => exact fun seen => rfl
  | [(k, v)] =>
    simp only [haveDiscrete, Bool.and_true] at h
    exact lexes_member _ (lexes_write v h level)
  | (k, v) :: p :: ps =>
    rw [haveDiscrete, Bool.and_eq_true] at h
    exact lexes_separated level (lexes_member _ (lexes_write v h.1 level)) (lexes_pairs (p :: ps) h.2 level)

end

end MessageCatalog.Json
