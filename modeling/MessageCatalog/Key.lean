/-
  MessageCatalog.Key — the key grammar.

  A key is a path of segments joined by dots. A segment starts with an ASCII letter, `_`
  or `$` and goes on with letters, digits, `_` and `$`.
-/

import MessageCatalog.Distinct
import MessageCatalog.Text

namespace MessageCatalog

namespace Key

def startsSegment (c : Code) : Bool := Text.isLetter c || c == '_' || c == '$'

def continuesSegment (c : Code) : Bool := startsSegment c || Text.isDigit c

/-- Whether the rest of a key may follow; `fresh` where a segment has to begin. -/
def accepts (fresh : Bool) : Text → Bool
  | [] => !fresh
  | c :: r =>
    if fresh then startsSegment c && accepts false r
    else if c = '.' then accepts true r
    else continuesSegment c && accepts false r

def isValid (k : Text) : Bool := accepts true k

def isSegment : Text → Bool
  | [] => false
  | c :: r => startsSegment c && r.all continuesSegment

/-- The path `k` below `base`; an empty base adds nothing. -/
def under (base k : Text) : Text := if base.isEmpty then k else base ++ ('.' : Code) :: k

end Key

/-- Keys that failed the grammar, once each. -/
abbrev RejectedKeys := Distinct Text

end MessageCatalog
