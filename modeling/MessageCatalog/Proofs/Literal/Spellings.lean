/-
  MessageCatalog.Proofs.Literal.Spellings — every way to spell a text between quotes.

  A spelling is one code point as it stands, an escape, or a line continuation, which
  stands for nothing. Spellings are listed here as the language defines them, with a table
  of their own for the escapes of one letter; nothing below is read off the reader.

  What one spelling stands for does not depend on its neighbours, with two exceptions, and
  a spelled text has neither: a dollar sign and a brace that open a substitution, and a
  continuation by a carriage return in front of a line feed, which is a continuation by both.

  Proved: a spelled string is read as what its spellings denote, up to its closing quote
  and whatever follows (`readStringAt_spelled`).
-/

import MessageCatalog.Literal.Position
import MessageCatalog.Proofs.Text
import MessageCatalog.Proofs.Literal.Render

namespace MessageCatalog.Literal

namespace Source

/-! ## Digits -/

structure HexDigit where
  value : Fin 16
  /-- Written as a capital, where it is a letter. -/
  isUpper : Bool

def HexDigit.code (d : HexDigit) : Code :=
  if d.value.val < 10 then 48 + d.value.val else if d.isUpper then 55 + d.value.val else 87 + d.value.val

/-- The number that digits name, the first one highest. -/
def number (ds : List HexDigit) : Nat := ds.foldl (fun n d => n * 16 + d.value.val) 0

/-! ## Spellings -/

/-- The letters that name a code point other than themselves after a backslash. -/
inductive EscapeLetter where
  | n
  | t
  | r
  | b
  | f
  | v
  | zero

namespace EscapeLetter

def code : EscapeLetter → Code
  | .n => 'n'
  | .t => 't'
  | .r => 'r'
  | .b => 'b'
  | .f => 'f'
  | .v => 'v'
  | .zero => '0'

def denoted : EscapeLetter → Code
  | .n => 0x0A
  | .t => 0x09
  | .r => 0x0D
  | .b => 0x08
  | .f => 0x0C
  | .v => 0x0B
  | .zero => 0x00

end EscapeLetter

/-- What ends a line after a backslash. -/
inductive LineEnd where
  | feed
  | returnFeed
  | carriageReturn
  | lineSeparator
  | paragraphSeparator

def LineEnd.print : LineEnd → Text
  | .feed => [0x0A]
  | .returnFeed => [0x0D, 0x0A]
  | .carriageReturn => [0x0D]
  | .lineSeparator => [0x2028]
  | .paragraphSeparator => [0x2029]

/-- The code points that do not stand for themselves after a backslash. -/
def special : Text := ("ntrbfv0xu" : Text) ++ ([0x0A, 0x0D, 0x2028, 0x2029] : Text)

inductive Spelling where
  | raw (c : Code)
  | letter (l : EscapeLetter)
  /-- `\xHH` -/
  | byte (d₁ d₂ : HexDigit)
  /-- `\uHHHH` -/
  | unit (d₁ d₂ d₃ d₄ : HexDigit)
  /-- `\u` and digits in braces. -/
  | braced (ds : List HexDigit) (isShort : 1 ≤ ds.length ∧ ds.length ≤ 8) (isCode : number ds ≤ 0x10FFFF)
  | continuation (e : LineEnd)
  | identity (c : Code) (isOther : c ∉ special)

namespace Spelling

/-- What stands behind the backslash of an escape or a continuation. -/
def afterBackslash : Spelling → Text
  | .raw _ => []
  | .letter l => [l.code]
  | .byte d₁ d₂ => ('x' : Code) :: [d₁, d₂].map HexDigit.code
  | .unit d₁ d₂ d₃ d₄ => ('u' : Code) :: [d₁, d₂, d₃, d₄].map HexDigit.code
  | .braced ds _ _ => ('u' : Code) :: ('{' : Code) :: (ds.map HexDigit.code ++ [('}' : Code)])
  | .continuation e => e.print
  | .identity c _ => [c]

def print : Spelling → Text
  | .raw c => [c]
  | x => ('\\' : Code) :: x.afterBackslash

def denoted : Spelling → Text
  | .raw c => [c]
  | .letter l => [l.denoted]
  | .byte d₁ d₂ => [number [d₁, d₂]]
  | .unit d₁ d₂ d₃ d₄ => [number [d₁, d₂, d₃, d₄]]
  | .braced ds _ _ => [number ds]
  | .continuation _ => []
  | .identity c _ => [c]

def startsRaw (c : Code) : List Spelling → Bool
  | .raw d :: _ => d == c
  | _ => false

/-- Whether a spelling may stand between quotes `q`, in front of `xs`. -/
def fits (q : Code) (xs : List Spelling) : Spelling → Bool
  | .raw c =>
    c != q && c != '\\' && (q == '`' || c != '\n') && !(q == '`' && c == '$' && startsRaw '{' xs)
  | .continuation .carriageReturn => !startsRaw '\n' xs
  | _ => true

end Spelling

def isSpelled (q : Code) : List Spelling → Bool
  | [] => true
  | x :: xs => x.fits q xs && isSpelled q xs

structure Spelled where
  quote : Code
  spellings : List Spelling
  isQuote : isQuote quote = true
  isSpelled : isSpelled quote spellings = true

namespace Spelled

def body (s : Spelled) : Text := s.spellings.flatMap Spelling.print

def print (s : Spelled) : Text := s.quote :: (s.body ++ [s.quote])

def denoted (s : Spelled) : Text := s.spellings.flatMap Spelling.denoted

end Spelled

end Source

open Source

/-! ## Digits are read as their number -/

theorem isHexDigit_code (d : HexDigit) : Text.isHexDigit d.code = true := by
  obtain ⟨v, u⟩ := d
  revert v u
  decide

theorem hexDigit_code (d : HexDigit) : Text.hexDigit d.code = d.value := by
  obtain ⟨v, u⟩ := d
  revert v u
  decide

theorem hexValue_codes (ds : List HexDigit) : Text.hexValue (ds.map HexDigit.code) = number ds := by
  simp only [Text.hexValue, List.foldl_map, hexDigit_code, number]

theorem all_isHexDigit (ds : List HexDigit) : (ds.map HexDigit.code).all Text.isHexDigit = true := by
  simp [isHexDigit_code]

theorem fixedHex_codes (ds : List HexDigit) (t : Text) :
    fixedHex ds.length (ds.map HexDigit.code ++ t) = some (number ds) := by
  have htake : (ds.map HexDigit.code ++ t).take ds.length = ds.map HexDigit.code := List.take_left' (by simp)
  simp only [fixedHex, htake, List.length_map, decide_true, all_isHexDigit, Bool.and_self, if_true, hexValue_codes]

theorem bracedHex_codes {ds : List HexDigit} (hshort : 1 ≤ ds.length ∧ ds.length ≤ 8) (hcode : number ds ≤ 0x10FFFF)
    (t : Text) : bracedHex (ds.map HexDigit.code ++ ('}' : Code) :: t) = some (number ds, ds.length) := by
  have hdigit : ∀ c ∈ ds.map HexDigit.code, (c != ('}' : Code)) = true := by
    intro c hc
    obtain ⟨d, -, rfl⟩ := List.mem_map.1 hc
    rw [bne_iff_ne]
    intro h
    exact absurd (h ▸ isHexDigit_code d) (by decide)
  have htake : (ds.map HexDigit.code ++ ('}' : Code) :: t).take 9 =
      ds.map HexDigit.code ++ ('}' : Code) :: t.take (8 - ds.length) := by
    have hroom : 9 - (ds.map HexDigit.code).length = (8 - ds.length) + 1 := by
      rw [List.length_map]
      omega
    rw [List.take_append, hroom, List.take_succ_cons, List.take_of_length_le (by simp; omega)]
  have hdigits : (ds.map HexDigit.code ++ ('}' : Code) :: t.take (8 - ds.length)).takeWhile
      (fun (c : Code) => c != '}') = ds.map HexDigit.code := by
    rw [List.takeWhile_append_of_pos hdigit, List.takeWhile_cons_of_neg (by simp), List.append_nil]
  have hne : (ds.map HexDigit.code).isEmpty = false := by
    cases ds with
    | nil => exact absurd hshort.1 (by decide)
    | cons d ds => rfl
  have hlt : ds.length < ds.length + ((t.take (8 - ds.length)).length + 1) := by omega
  simp only [bracedHex, htake, hdigits, hne, all_isHexDigit, hexValue_codes, hcode, hlt, List.length_append,
    List.length_map, List.length_cons, decide_true, Bool.not_false, Bool.and_self, if_true]

/-! ## One escape -/

/-- A letter that escapes nothing is what it is. -/
theorem escape_identity {c : Code} (h : c ∉ special) (t : Text) : escape (c :: t) = ([c], 1) := by
  simp only [special, Text.ofString, List.mem_append, List.mem_cons, not_or] at h
  simp at h
  simp [escape, simpleEscape, h]

/-- An escape is taken as a whole and for what it denotes, whatever follows it; only a
carriage return looks at what follows. -/
theorem escape_spelling {x : Spelling} (hx : ∀ c, x ≠ .raw c) {t : Text}
    (ht : x = .continuation .carriageReturn → Text.headIs '\n' t = false) :
    escape (x.afterBackslash ++ t) = (x.denoted, x.afterBackslash.length) := by
  cases x with
  | raw c => exact absurd rfl (hx c)
  | letter l => cases l <;> rfl
  | byte d₁ d₂ =>
    have h : fixedHex 2 ([d₁, d₂].map HexDigit.code ++ t) = some (number [d₁, d₂]) := fixedHex_codes [d₁, d₂] t
    simp only [Spelling.afterBackslash, List.cons_append, escape, h]
    rfl
  | unit d₁ d₂ d₃ d₄ =>
    have h : fixedHex 4 ([d₁, d₂, d₃, d₄].map HexDigit.code ++ t) = some (number [d₁, d₂, d₃, d₄]) :=
      fixedHex_codes [d₁, d₂, d₃, d₄] t
    -- a digit is no brace
    have hb : Text.headIs '{' ([d₁, d₂, d₃, d₄].map HexDigit.code ++ t) = false := by
      refine beq_eq_false_iff_ne.2 fun e => ?_
      have hd := isHexDigit_code d₁
      rw [Option.some.inj e] at hd
      exact absurd hd (by decide)
    simp only [Spelling.afterBackslash, List.cons_append, escape, h, hb]
    rfl
  | braced ds hshort hcode =>
    have h := bracedHex_codes hshort hcode t
    simp only [Spelling.afterBackslash, List.cons_append, List.append_assoc, List.nil_append, escape, List.tail_cons, h]
    simp [simpleEscape, Text.headIs, Spelling.denoted]
  | continuation e =>
    cases e with
    | carriageReturn =>
      have hn : Text.headIs 10 t = false := ht rfl
      simp [Spelling.afterBackslash, LineEnd.print, Spelling.denoted, escape, simpleEscape, hn]
    | _ => rfl
  | identity c h => exact escape_identity h t

/-! ## A spelled text -/

theorem print_escape {x : Spelling} (hx : ∀ c, x ≠ .raw c) : x.print = ('\\' : Code) :: x.afterBackslash := by
  cases x with
  | raw c => exact absurd rfl (hx c)
  | _ => rfl

/-- What comes first in the source, if it neither opens an escape nor closes the string, is
there as it stands. -/
theorem startsRaw_of_headIs {c q : Code} (hback : c ≠ '\\') (hq : q ≠ c) {xs : List Spelling} {rest : Text}
    (h : Text.headIs c (xs.flatMap Spelling.print ++ q :: rest) = true) : Spelling.startsRaw c xs = true := by
  cases xs with
  | nil => exact absurd (by simpa [Text.headIs] using h) hq
  | cons x xs =>
    by_cases hx : ∃ d, x = .raw d
    · obtain ⟨d, rfl⟩ := hx
      simpa [Text.headIs, Spelling.startsRaw, Spelling.print] using h
    · rw [List.flatMap_cons, print_escape fun d e => hx ⟨d, e⟩] at h
      exact absurd (by simpa [Text.headIs] using h) hback.symm

/-- One spelling in front of others is read for what it denotes, and its source is counted. -/
theorem readBody_spelling {q : Code} (hq : isQuote q = true) (giveUp : Reading) (whole : Text) {x : Spelling}
    {xs : List Spelling} (h : x.fits q xs = true) (budget : Nat) (acc rest : Text) :
    readBody q giveUp whole (budget + x.print.length) acc
        (x.print ++ (xs.flatMap Spelling.print ++ q :: rest)) =
      readBody q giveUp whole budget (x.denoted.reverse ++ acc) (xs.flatMap Spelling.print ++ q :: rest) := by
  by_cases hx : ∃ c, x = .raw c
  · obtain ⟨c, rfl⟩ := hx
    simp only [Spelling.fits, Bool.and_eq_true, Bool.or_eq_true, bne_iff_ne, beq_iff_eq] at h
    obtain ⟨⟨⟨hcq, hback⟩, hn⟩, hs⟩ := h
    refine readBody_raw giveUp whole budget acc hback hcq hn fun ⟨hq', hc, hb⟩ => ?_
    rw [hq', hc, startsRaw_of_headIs (by decide) (quote_ne hq (by decide)) hb] at hs
    exact absurd hs (by decide)
  · have hx : ∀ c, x ≠ .raw c := fun c e => hx ⟨c, e⟩
    have hescape : escape (x.afterBackslash ++ (xs.flatMap Spelling.print ++ q :: rest)) =
        (x.denoted, x.afterBackslash.length) := by
      refine escape_spelling hx fun hcr => ?_
      rw [Bool.eq_false_iff]
      intro hfeed
      have hraw := startsRaw_of_headIs (by decide) (quote_ne hq (by decide)) hfeed
      rw [hcr, Spelling.fits, hraw] at h
      cases h
    rw [print_escape hx, List.cons_append, List.length_cons, ← Nat.add_assoc,
      readBody_escape (ne_backslash hq), hescape]
    simp

theorem readBody_spelled {q : Code} (hq : isQuote q = true) (giveUp : Reading) (whole : Text) {xs : List Spelling}
    (h : isSpelled q xs = true) {budget : Nat} (hb : (xs.flatMap Spelling.print).length < budget) (acc rest : Text) :
    readBody q giveUp whole budget acc (xs.flatMap Spelling.print ++ q :: rest) =
      ⟨some (acc.reverse ++ xs.flatMap Spelling.denoted), rest⟩ := by
  induction xs generalizing budget acc with
  | nil =>
    obtain ⟨b, rfl⟩ : ∃ b, budget = b + 1 := ⟨budget - 1, by simp at hb; omega⟩
    simpa using readBody_close giveUp whole b acc rest
  | cons x xs ih =>
    simp only [isSpelled, Bool.and_eq_true] at h
    rw [List.flatMap_cons, List.length_append] at hb
    obtain ⟨b, rfl⟩ : ∃ b, budget = b + x.print.length := ⟨budget - x.print.length, by omega⟩
    rw [List.flatMap_cons, List.append_assoc, readBody_spelling hq giveUp whole h.1, ih h.2 (by omega)]
    simp

theorem readString_spelled (s : Spelled) (rest : Text) :
    readString none (s.print ++ rest) = ⟨some s.denoted, rest⟩ := by
  have hroom : s.body.length < (s.body ++ s.quote :: rest).length := by simp
  have hbody := readBody_spelled s.isQuote ⟨none, []⟩ (s.body ++ s.quote :: rest) s.isSpelled hroom [] rest
  simp only [Spelled.print, List.cons_append, List.append_assoc, List.nil_append, readString, s.isQuote, Bool.not_true,
    Bool.false_eq_true, if_false]
  exact hbody

theorem trim_spelled (s : Spelled) : s.print.trim = s.print := by
  have h := isSpace_quote s.isQuote
  have hlast : s.print.getLast? = some s.quote := by rw [Spelled.print, ← List.cons_append, List.getLast?_concat]
  exact Text.trimBy_eq_self ⟨by simp [Spelled.print, h], by simp [hlast, h]⟩

/-- A spelled string is read as what its spellings denote, up to its closing quote, wherever
it stands and whatever follows; alone, it is unquoted to the same. A text as the writer quotes
it is one that is unquoted to itself. -/
theorem readStringAt_spelled :
    (∀ (s : Spelled) (before rest : Text),
      readStringAt (before ++ (s.print ++ rest)) before.length (before ++ (s.print ++ rest)).length none =
          some (some s.denoted, before.length + s.print.length) ∧
        unquote s.print = some s.denoted) ∧
      ∀ t : Text, unquote (quote t) = some t := by
  refine ⟨fun s before rest => ⟨?_, ?_⟩, fun t => ?_⟩
  · have hwindow : Text.window (before ++ (s.print ++ rest)) before.length (before ++ (s.print ++ rest)).length =
        s.print ++ rest := by
      rw [List.length_append, Text.window_append, List.take_length]
    have hroom : ¬ (before ++ (s.print ++ rest)).length ≤ before.length := by simp [Spelled.print]
    have hafter : positionOf (before ++ (s.print ++ rest)).length rest = before.length + s.print.length := by
      rw [positionOf, ← List.append_assoc, List.length_append, Nat.add_sub_cancel, List.length_append]
    rw [readStringAt, List.drop_left, hwindow, readString_spelled, ← hafter]
    simp only [hroom, if_false]
    simp only [Spelled.print, List.cons_append, s.isQuote, Bool.not_true, Bool.false_eq_true, if_false]
  · have h := readString_spelled s []
    rw [List.append_nil] at h
    rw [unquote, trim_spelled, h]
    rfl
  · rw [← print_ofText, unquote_print, denoted_ofText]

end MessageCatalog.Literal
