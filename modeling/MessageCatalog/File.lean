/-
  MessageCatalog.File — what a path can lead to, and how it is read as text.

  Text files are UTF-8. Reading takes `\r\n` and `\r` for line feeds; writing changes
  nothing.
-/

import MessageCatalog.Fault
import MessageCatalog.Text.Blank
import MessageCatalog.Text.Utf8

namespace MessageCatalog

inductive File where
  | directory
  | octets (content : Text.Utf8.Octets)

namespace File

/-- The text at a path, if a file is there. -/
def readText (f : Option File) : Except Cause Text :=
  match f with
  | none => .error .missingFile
  | some .directory => .error .directory
  | some (.octets content) =>
    match Text.Utf8.decode content with
    | some t => .ok (Text.unifyLineEnds t)
    | none => .error .undecodable

def ofText (t : Text) : Except Cause File :=
  match Text.Utf8.encode t with
  | some content => .ok (.octets content)
  | none => .error .unencodable

end File

end MessageCatalog
