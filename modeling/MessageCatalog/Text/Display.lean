/-
  MessageCatalog.Text.Display — a text in quotes, as messages show it.

  Single quotes, or double ones around a text with a single quote and no double one.
  What does not print is escaped by its code.
-/

import MessageCatalog.Text.Printable

namespace MessageCatalog.Text

def displayCode (quote c : Code) : Text :=
  if c == quote || c == '\\' then ['\\', c]
  else if c == '\n' then "\\n"
  else if c == '\r' then "\\r"
  else if c == '\t' then "\\t"
  else if isPrintable c then [c]
  else if c < 0x100 then "\\x" ++ hex 2 c
  else if c < 0x10000 then "\\u" ++ hex 4 c
  else "\\U" ++ hex 8 c

def display (t : Text) : Text :=
  let quote : Code := if ('\'' : Code) ∈ t && ('"' : Code) ∉ t then '"' else '\''
  quote :: t.flatMap (displayCode quote) ++ [quote]

end MessageCatalog.Text
