/-
  MessageCatalog.Literal.Position — the cursors as functions of positions.

  A cursor at `start` that must not look past `stop` sees the part of the text between
  the two. A position at or past `stop` sees nothing and stays where it is.
-/

import MessageCatalog.Literal.Braces
import MessageCatalog.Literal.Quoted

namespace MessageCatalog.Literal

/-- Where a cursor with `rest` left of what lies before `stop` stands. -/
def positionOf (stop : Nat) (rest : Text) : Nat := stop - rest.length

def skipTriviaAt (t : Text) (start stop : Nat) : Nat :=
  if stop ≤ start then start else positionOf stop (skipTrivia (t.window start stop))

def skipStringAt (t : Text) (start stop : Nat) : Nat :=
  match t.window start stop with
  | [] => start
  | q :: body => positionOf stop (skipString q body)

def closingBraceAt (t : Text) (start stop : Nat) : Option Nat :=
  (closingBrace 0 (t.window start stop)).map (positionOf stop)

def skipWrappersAt (t : Text) (start stop : Nat) : Nat :=
  if stop ≤ start then stop else positionOf stop (skipWrappers (t.window start stop))

def objectLiteralAt (t : Text) (start stop : Nat) : Option (Nat × Nat) :=
  (objectLiteral (t.window start stop)).map fun b => (positionOf stop b.fromOpen, positionOf stop b.fromClose)

/-- The string at `start`, and the position after it. The opening quote is looked at even
where `stop` lies before it; there has to be a character at `start`. -/
def readStringAt (t : Text) (start stop : Nat) (maxLength : Option Nat) : Option (Option Text × Nat) :=
  match t.drop start with
  | [] => none
  | q :: _ =>
    if !isQuote q then some (none, start)
    else if stop ≤ start then some (none, stop)
    else
      let r := readString maxLength (t.window start stop)
      some (r.value, positionOf stop r.rest)

end MessageCatalog.Literal
