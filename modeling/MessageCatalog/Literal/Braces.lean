/-
  MessageCatalog.Literal.Braces — where an object literal starts and ends.

  Braces are counted outside strings and comments. In front of the literal, parentheses
  and type assertions are stripped; what follows it is never looked at.
-/

import MessageCatalog.Literal.Trivia

namespace MessageCatalog.Literal

/-- The rest from the brace that brings `depth` to zero on, which is the one that closes
the first brace read when `depth` starts at zero. -/
def closingBrace (depth : Int) (t : Text) : Option Text :=
  match t with
  | [] => none
  | c :: r =>
    if isQuote c then closingBrace depth (skipString c r)
    else if h : opensComment c r = true then closingBrace depth (skipTrivia (c :: r))
    else if c == '{' then closingBrace (depth + 1) r
    else if c == '}' then if depth = 1 then some (c :: r) else closingBrace (depth - 1) r
    else closingBrace depth r
termination_by t.length
decreasing_by
  · have := length_skipString_le c r; simp; omega
  · exact length_skipTrivia_lt h
  all_goals simp

theorem length_closingBrace_le {depth : Int} {t s : Text} (h : closingBrace depth t = some s) :
    s.length ≤ t.length := by
  fun_induction closingBrace depth t with
  | case1 => simp at h
  | case2 depth c r _ ih => have := ih h; have := length_skipString_le c r; simp; omega
  | case3 depth c r _ hc ih => have := ih h; have := length_skipTrivia_lt hc; omega
  | case5 => simp_all
  | case4 _ _ _ _ _ _ ih | case6 _ _ _ _ _ _ _ _ ih | case7 _ _ _ _ _ _ _ ih => have := ih h; simp; omega

/-- Past the `>` that closes the `<` the text starts with. -/
def afterAngles (depth : Nat) : Text → Text
  | [] => []
  | c :: r =>
    if c == '<' then afterAngles (depth + 1) r
    else if c == '>' then if depth = 1 then r else afterAngles (depth - 1) r
    else afterAngles depth r

theorem length_afterAngles_le (depth : Nat) (t : Text) : (afterAngles depth t).length ≤ t.length := by
  fun_induction afterAngles depth t <;> simp_all <;> omega

/-- Past trivia, opening parentheses and type assertions. -/
def skipWrappers (t : Text) : Text :=
  go (skipTrivia t)
where
  go (t : Text) : Text :=
    match t with
    | [] => []
    | c :: r =>
      if c == '(' then go (skipTrivia r)
      else if c == '<' then go (skipTrivia (afterAngles 1 r))
      else c :: r
  termination_by t.length
  decreasing_by
    · have := length_skipTrivia_le r; simp; omega
    · have := length_skipTrivia_le (afterAngles 1 r); have := length_afterAngles_le 1 r; simp; omega

structure Braced where
  /-- The rest from the opening brace on. -/
  fromOpen : Text
  /-- The rest from the closing brace on. -/
  fromClose : Text

/-- The source of the literal, braces included. -/
def Braced.text (b : Braced) : Text := b.fromOpen.upTo (b.fromClose.drop 1)

/-- What stands between the braces. -/
def Braced.inside (b : Braced) : Text := (b.fromOpen.upTo b.fromClose).drop 1

/-- The object literal an expression starts with, if it is one and is closed. -/
def objectLiteral (t : Text) : Option Braced :=
  match skipWrappers t with
  | [] => none
  | c :: r => if c == '{' then (closingBrace 0 (c :: r)).map fun s => ⟨c :: r, s⟩ else none

end MessageCatalog.Literal
