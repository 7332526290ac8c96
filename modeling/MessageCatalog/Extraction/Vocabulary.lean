/-
  MessageCatalog.Extraction.Vocabulary — the names that mark translation keys in sources.
-/

import MessageCatalog.Text.LowerCase

namespace MessageCatalog.Extraction

/-- The calls whose first argument holds translations. -/
inductive CallKind where
  /-- Names a plugin and its default messages. -/
  | definition
  /-- Translations of a resource. -/
  | resource
  /-- Messages that override the defaults in one language. -/
  | override
  /-- One descriptor per key. -/
  | enumerated
  deriving DecidableEq, Repr

namespace CallKind

def callee : CallKind → Text
  | .definition => "createTranslationRef"
  | .resource => "createTranslationResource"
  | .override => "createTranslationMessages"
  | .enumerated => "defineMessages"

def all : List CallKind := [.definition, .resource, .override, .enumerated]

/-- The property of the argument that holds the translations; for `enumerated` they are
the argument itself. -/
def property : CallKind → Text
  | .resource => "translations"
  | _ => "messages"

end CallKind

/-- The fields of a descriptor that can stand for its text, preferred first. -/
def descriptorFields : List Text := ["defaultMessage", "id"]

/-- The type that carries its keys in its second argument. -/
def typeReference : Text := "TranslationRef"

def isMessagesName (name : Text) : Bool :=
  let low := Text.lower name
  Text.contains "messages" low || Text.contains "translations" low

end MessageCatalog.Extraction
