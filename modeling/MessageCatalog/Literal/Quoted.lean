/-
  MessageCatalog.Literal.Quoted — string literals: what they denote, and how a text is
  written as one.

  An escape that is not one stands for its letter. A template with a substitution is not
  a plain string. `quote` writes what `unquote` reads back.
-/

import MessageCatalog.Literal.Trivia
import MessageCatalog.Text.Blank

namespace MessageCatalog.Literal

/-- The control characters that have a letter of their own, after a backslash. -/
def simpleEscape (c : Code) : Option Code :=
  if c == 'n' then some 10
  else if c == 't' then some 9
  else if c == 'r' then some 13
  else if c == 'b' then some 8
  else if c == 'f' then some 12
  else if c == 'v' then some 11
  else if c == '0' then some 0
  else none

/-- The code point that exactly `n` hexadecimal digits at the front name. -/
def fixedHex (n : Nat) (t : Text) : Option Code :=
  let ds := t.take n
  if ds.length = n && ds.all Text.isHexDigit then some (Text.hexValue ds) else none

/-- The code point named by up to eight digits before a closing brace, and their number. -/
def bracedHex (t : Text) : Option (Code × Nat) :=
  let ds := (t.take 9).takeWhile fun (c : Code) => c != '}'
  if ds.length < (t.take 9).length && !ds.isEmpty && ds.all Text.isHexDigit && Text.hexValue ds ≤ 0x10FFFF then
    some (Text.hexValue ds, ds.length)
  else none

/-- What the escape after a backslash denotes, and how many code points it takes. -/
def escape : Text → Text × Nat
  | [] => ([], 0)
  | c :: r =>
    match simpleEscape c with
    | some d => ([d], 1)
    | none =>
      if c == '\r' then ([], if Text.headIs '\n' r then 2 else 1)
      else if c == '\n' || c == 0x2028 || c == 0x2029 then ([], 1)
      else if c == 'x' then
        match fixedHex 2 r with
        | some d => ([d], 3)
        | none => (['x'], 1)
      else if c == 'u' then
        if Text.headIs '{' r then
          match bracedHex r.tail with
          | some (d, n) => ([d], n + 3)
          | none => (['u'], 1)
        else
          match fixedHex 4 r with
          | some d => ([d], 5)
          | none => (['u'], 1)
      else ([c], 1)

/-- A string read up to its closing quote, with what follows; no text if it is not closed,
is cut by a line feed, is longer than allowed or has a substitution. -/
structure Reading where
  value : Option Text
  rest : Text

/-- The body of a string opened by `q`. `budget` code points may still be looked at; `acc`
is the text so far, last code point first; `giveUp` is the outcome when the budget ends. -/
def readBody (q : Code) (giveUp : Reading) (body : Text) (budget : Nat) (acc t : Text) : Reading :=
  match t, budget with
  | [], _ => giveUp
  | _ :: _, 0 => giveUp
  | c :: r, budget + 1 =>
    if c == q then ⟨some acc.reverse, r⟩
    else if c == '\\' then
      let (d, n) := escape r
      readBody q giveUp body (budget - n) (d.reverse ++ acc) (r.drop n)
    else if c == '\n' && q != '`' then ⟨none, c :: r⟩
    else if q == '`' && c == '$' && Text.headIs '{' r then ⟨none, skipString q body⟩
    else readBody q giveUp body budget (c :: acc) r
termination_by t.length

/-- The string literal the text starts with. Of its body, `maxLength` code points are
looked at, closing quote included. -/
def readString (maxLength : Option Nat) : Text → Reading
  | [] => ⟨none, []⟩
  | q :: body =>
    if !isQuote q then ⟨none, q :: body⟩
    else
      match maxLength with
      | none => readBody q ⟨none, []⟩ body body.length [] body
      | some n =>
        let giveUp := if n < body.length then skipString q body else []
        readBody q ⟨none, giveUp⟩ body n [] body

theorem length_readBody_le {q : Code} {giveUp : Reading} {body t : Text} {budget : Nat} {acc : Text} {n : Nat}
    (hg : giveUp.rest.length ≤ n) (hb : body.length ≤ n) (ht : t.length ≤ n) :
    (readBody q giveUp body budget acc t).rest.length ≤ n := by
  fun_induction readBody q giveUp body budget acc t with
  | case1 | case2 => exact hg
  | case3 => simp at *; omega
  | case4 acc c r budget _ _ d n' _ ih => exact ih (by simp at *; omega)
  | case5 => simpa using ht
  | case6 => have := length_skipString_le q body; simp; omega
  | case7 acc c r budget _ _ _ _ ih => exact ih (by simp at *; omega)

theorem length_readString_lt (maxLength : Option Nat) (body : Text) {q : Code} (hq : isQuote q = true) :
    (readString maxLength (q :: body)).rest.length < (q :: body).length := by
  have hs := length_skipString_le q body
  have key : (readString maxLength (q :: body)).rest.length ≤ body.length := by
    simp only [readString, hq]
    cases maxLength with
    | none => exact length_readBody_le (by simp) (Nat.le_refl _) (Nat.le_refl _)
    | some n =>
      refine length_readBody_le ?_ (Nat.le_refl _) (Nat.le_refl _)
      dsimp only
      split <;> simp [hs]
  simp; omega

/-- What a complete string literal denotes; white space may stand around it. -/
def unquote (t : Text) : Option Text :=
  let r := readString none t.trim
  if r.rest.isEmpty then r.value else none

/-! ## Writing -/

def replaced (c : Code) (part t : Text) : Text := t.flatMap fun d => if d == c then part else [d]

/-- A text as a single-quoted literal. Backslashes come first: each later step writes some. -/
def quote (t : Text) : Text :=
  let escaped := replaced 0 "\\0" (replaced '\t' "\\t" (replaced '\r' "\\r" (replaced '\n' "\\n"
    (replaced '\'' "\\'" (replaced '\\' "\\\\" t)))))
  ("'" : Text) ++ escaped ++ "'"

end MessageCatalog.Literal
