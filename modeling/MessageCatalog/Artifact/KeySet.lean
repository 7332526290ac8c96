/-
  MessageCatalog.Artifact.KeySet — the keys of one language's deployed artifact.

  The messages of an artifact are an object literal: the value of its `messages`
  property, or of an exported constant whose name ends in `Messages`. Of each kind the
  first in the text is looked at, the one that starts earlier first.
-/

import MessageCatalog.Extraction.Anchor
import MessageCatalog.Literal.Flatten

namespace MessageCatalog.Artifact

open Extraction (Anchor.property Anchor.exported Anchor.findFirst)

/-- The most characters of a constant's name between the first and the ending. -/
def maxNameChars : Nat := 200

/-- A constant's name: at least one character, and the ending. -/
def isMessagesConstant (name : Text) : Bool :=
  9 ≤ name.length && (Text.dropEnd? "Messages" name <|> Text.dropEnd? "messages" name).isSome

def messagesProperty (before : Option Code) (t : Text) : Option Text := Anchor.property "messages" before t

def messagesConstant (before : Option Code) (t : Text) : Option Text := do
  let (name, r) ← Anchor.exported [("const" : Text)] (maxNameChars + 8) before t
  if isMessagesConstant name then some r else none

/-- The text from the first match on, and after it. -/
def locate (recognize : Option Code → Text → Option Text) (t : Text) : Option (Text × Text) :=
  Anchor.findFirst (fun before s => (recognize before s).map fun r => (s, r)) none t

/-- What follows the first anchor of each kind, in the order of the text. -/
def anchors (t : Text) : List Text :=
  match locate messagesProperty t, locate messagesConstant t with
  | some (p, afterP), some (c, afterC) => if c.length ≤ p.length then [afterP, afterC] else [afterC, afterP]
  | some (_, r), none | none, some (_, r) => [r]
  | none, none => []

def messages? (t : Text) : Option Text := ((anchors t).findSome? Literal.objectLiteral).map (·.text)

def keySet (limits : Limits) (t : Text) (host : Host := {}) : Attempt (List Text) :=
  match messages? t with
  | some literal => Literal.flattenedKeys limits [] literal host
  | none => return []

end MessageCatalog.Artifact
