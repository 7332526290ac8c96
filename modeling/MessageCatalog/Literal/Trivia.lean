/-
  MessageCatalog.Literal.Trivia — what stands between tokens, and skipping a string.

  A cursor is the rest of a text: each function takes what is left and gives back what is
  left after it. White space here is a set of its own, smaller than that of Unicode. A
  line comment ends at a line feed only. What is not closed reaches to the end.
-/

import MessageCatalog.Text

namespace MessageCatalog.Literal

open MessageCatalog

def isBlank (c : Code) : Bool := c == ' ' || (9 ≤ c && c ≤ 13) || c == 0xFEFF || c == 0xA0

def isNameQuote (c : Code) : Bool := c == '\'' || c == '"'

def isQuote (c : Code) : Bool := isNameQuote c || c == '`'

def opensComment (c : Code) (r : Text) : Bool := c == '/' && (Text.headIs '/' r || Text.headIs '*' r)

def afterLine : Text → Text
  | [] => []
  | c :: r => if c == '\n' then r else afterLine r

def afterBlock : Text → Text
  | [] => []
  | c :: r =>
    match r with
    | [] => []
    | d :: s => if c == '*' && d == '/' then s else afterBlock (d :: s)

theorem length_afterLine_le (t : Text) : (afterLine t).length ≤ t.length := by
  induction t with
  | nil => simp [afterLine]
  | cons c r ih => simp only [afterLine]; split <;> (simp; try omega)

theorem length_afterBlock_le (t : Text) : (afterBlock t).length ≤ t.length := by
  fun_induction afterBlock t
  all_goals simp_all
  all_goals omega

def skipTrivia (t : Text) : Text :=
  match t with
  | [] => []
  | c :: r =>
    if isBlank c then skipTrivia r
    else if opensComment c r then
      if Text.headIs '/' r then skipTrivia (afterLine r.tail) else skipTrivia (afterBlock r.tail)
    else c :: r
termination_by t.length
decreasing_by
  · simp
  · have := length_afterLine_le r.tail; simp at *; omega
  · have := length_afterBlock_le r.tail; simp at *; omega

theorem length_skipTrivia_le (t : Text) : (skipTrivia t).length ≤ t.length := by
  fun_induction skipTrivia t with
  | case1 => simp
  | case2 c r _ ih => simp; omega
  | case3 c r _ _ _ ih => have := length_afterLine_le r.tail; simp at *; omega
  | case4 c r _ _ _ ih => have := length_afterBlock_le r.tail; simp at *; omega
  | case5 => simp

theorem length_skipTrivia_lt {c : Code} {r : Text} (h : opensComment c r = true) :
    (skipTrivia (c :: r)).length < (c :: r).length := by
  rw [skipTrivia]
  split
  · have := length_skipTrivia_le r; simp; omega
  · have h₁ := length_skipTrivia_le (afterLine r.tail)
    have h₂ := length_skipTrivia_le (afterBlock r.tail)
    have h₃ := length_afterLine_le r.tail
    have h₄ := length_afterBlock_le r.tail
    split <;> simp at * <;> omega

/-- Past the string opened by `q`; at the line feed if one cuts it short. -/
def skipString (q : Code) : Text → Text
  | [] => []
  | c :: r =>
    if c == '\\' then
      match r with
      | [] => []
      | _ :: s => skipString q s
    else if c == q then r
    else if c == '\n' && q != '`' then c :: r
    else skipString q r

theorem length_skipString_le (q : Code) (t : Text) : (skipString q t).length ≤ t.length := by
  fun_induction skipString q t <;> simp_all <;> omega

end MessageCatalog.Literal
