/-
  MessageCatalog.Yaml.Cursor — a place in YAML text, and the characters that matter there.

  Layout is judged by columns, and how long a key may be by the distance between places,
  so a cursor counts lines, columns and characters. A line ends at a line feed, U+0085,
  U+2028 or U+2029; the last two stand for themselves in folded text.
-/

import MessageCatalog.Text

namespace MessageCatalog.Yaml

def isBreak (c : Code) : Bool := c == '\n' || c == 0x85 || c == 0x2028 || c == 0x2029

/-- How a line end reads in a scalar. -/
def breakText (c : Code) : Text := if c == 0x85 then ['\n'] else [c]

def isSpace (c : Code) : Bool := c == ' ' || c == '\t'

def isBlank (c : Code) : Bool := isSpace c || isBreak c

/-- Characters that YAML text may hold. -/
def isPrintable (c : Code) : Bool :=
  c == '\t' || c == '\n' || c == '\r' || (0x20 ≤ c && c ≤ 0x7E) || c == 0x85 || (0xA0 ≤ c && c ≤ 0xD7FF) ||
    (0xE000 ≤ c && c ≤ 0xFFFD) || (0x10000 ≤ c && c ≤ 0x10FFFF)

def byteOrderMark : Code := 0xFEFF

structure Cursor where
  rest : Text
  index : Nat := 0
  line : Nat := 0
  column : Nat := 0

namespace Cursor

def next (c : Cursor) : Cursor :=
  match c.rest with
  | [] => c
  | d :: r =>
    if isBreak d then ⟨r, c.index + 1, c.line + 1, 0⟩
    else ⟨r, c.index + 1, c.line, if d = byteOrderMark then c.column else c.column + 1⟩

def skip (c : Cursor) : (n : Nat) → Cursor
  | 0 => c
  | n + 1 => c.next.skip n

theorem length_next {c : Cursor} {d : Code} {r : Text} (h : c.rest = d :: r) : c.next.rest.length = r.length := by
  unfold next
  rw [h]
  simp only
  split <;> rfl

def peek (c : Cursor) (n : Nat := 0) : Option Code := c.rest[n]?

def sees (c : Cursor) (d : Code) : Bool := c.rest.head? == some d

/-- Whether a blank or the end stands `n` characters ahead. -/
def blankAhead (c : Cursor) (n : Nat) : Bool := (c.peek n).all isBlank

def dropWhile (c : Cursor) (p : Code → Bool) : Cursor := c.skip (c.rest.takeWhile p).length

/-- Past the spaces, not tabs, that follow. -/
def pastSpaces (c : Cursor) : Cursor := c.dropWhile (· == ' ')

def toBreak (c : Cursor) : Cursor := c.dropWhile fun d => !isBreak d

def atBreak (c : Cursor) : Bool := c.rest.head?.any isBreak

/-- Whether a line starts with the mark `w`, on its own. -/
def atMark (w : Text) (c : Cursor) : Bool := c.column = 0 && w.isPrefixOf c.rest && c.blankAhead 3

def atSeparator (c : Cursor) : Bool := c.atMark "---" || c.atMark "..."

/-- Past spaces and a comment, which have to end the line. -/
def pastLine? (c : Cursor) : Option Cursor :=
  let c := c.pastSpaces
  let c := if c.sees '#' then c.toBreak else c
  if c.rest.isEmpty || c.atBreak then some c.next else none

end Cursor

end MessageCatalog.Yaml
