/-
  MessageCatalog.Reconciliation.Hygiene — values of a reference table that are no clean
  translations.

  Flagged are values that are no text, texts with a null character, and, for information
  only, texts with curly quotes.
-/

import MessageCatalog.Data

namespace MessageCatalog.Reconciliation

inductive WarningKind where
  | nonString
  | nullByte
  | curlyQuotes
  deriving DecidableEq, Repr

namespace WarningKind

def name : WarningKind → Text
  | .nonString => "non_string"
  | .nullByte => "null_byte"
  | .curlyQuotes => "curly_quotes"

def isInformational (k : WarningKind) : Bool := k = .curlyQuotes

end WarningKind

structure Warning where
  kind : WarningKind
  /-- The key the value stands at. -/
  key : Data
  value : Data

namespace Warning

/-- The key as it is reported: in words for a value that is no text. -/
def shownKey (w : Warning) : Data := if w.kind = .nonString then .text w.key.toText else w.key

def message (w : Warning) : Text :=
  "Translation value for \"" ++ w.key.toText ++
    match w.kind with
    | .nonString => "\" must be a string, got " ++ w.value.kindName
    | .nullByte => "\" contains null byte"
    | .curlyQuotes => "\" contains Unicode curly quotes/apostrophes"

end Warning

def isCurlyQuote (c : Code) : Bool := c == 0x2018 || c == 0x2019 || c == 0x201C || c == 0x201D

def warningKinds : Data → List WarningKind
  | .text t =>
    (if t.any (· == 0) then [.nullByte] else []) ++ if t.any isCurlyQuote then [.curlyQuotes] else []
  | _ => [.nonString]

def checkHygiene (reference : List (Data × Data)) : List Warning :=
  reference.flatMap fun e => (warningKinds e.2).map fun k => ⟨k, e.1, e.2⟩

end MessageCatalog.Reconciliation
