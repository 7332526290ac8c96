/-
  MessageCatalog.Text.Blank — the white space of Unicode, and lines.

  A line ends at a line feed, vertical tab, form feed, carriage return (with a line feed
  after it, one end), at the separators U+001C to U+001E, at U+0085, U+2028 and U+2029.
  Files are read with one kind of line end: a carriage return, alone or before a line
  feed, becomes a line feed.
-/

import MessageCatalog.Text

namespace MessageCatalog.Text

def isSpace (c : Code) : Bool :=
  (9 ≤ c && c ≤ 13) || (28 ≤ c && c ≤ 32) || c == 0x85 || c == 0xA0 || c == 0x1680 ||
    (0x2000 ≤ c && c ≤ 0x200A) || c == 0x2028 || c == 0x2029 || c == 0x202F || c == 0x205F || c == 0x3000

def trim (t : Text) : Text := trimBy isSpace t

def isLineEnd (c : Code) : Bool :=
  (10 ≤ c && c ≤ 13) || (28 ≤ c && c ≤ 30) || c == 0x85 || c == 0x2028 || c == 0x2029

def unifyLineEnds : Text → Text
  | [] => []
  | c :: r =>
    if c == '\r' then
      match r with
      | [] => ['\n']
      | d :: s => if d == '\n' then '\n' :: unifyLineEnds s else '\n' :: unifyLineEnds (d :: s)
    else c :: unifyLineEnds r

/-- The lines without their ends; nothing follows a final line end. -/
def lines (t : Text) : List Text := go [] t
where
  /-- `line` is the current line, last code point first. -/
  go (line : Text) : Text → List Text
    | [] => if line.isEmpty then [] else [line.reverse]
    | c :: r =>
      if c == '\r' then
        match r with
        | [] => [line.reverse]
        | d :: s => if d == '\n' then line.reverse :: go [] s else line.reverse :: go [] (d :: s)
      else if isLineEnd c then line.reverse :: go [] r
      else go (c :: line) r

end MessageCatalog.Text
