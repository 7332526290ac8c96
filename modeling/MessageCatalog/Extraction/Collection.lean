/-
  MessageCatalog.Extraction.Collection — what is gathered from one source file.

  Only valid keys enter the table, the others are listed once as rejected. The first
  plugin identifier offered is kept. A literal that is too long is skipped with a warning.
-/

import MessageCatalog.Literal.Flatten

namespace MessageCatalog.Extraction

structure Extracted where
  file : Text
  keys : Table Text Text := .empty
  plugin : Option Text := none
  rejected : List Text := []
  warnings : List Text := []
  usedFallback : Bool := false

structure Collection where
  file : Text
  limits : Limits := {}
  keys : Table Text Text := .empty
  plugin : Option Text := none
  rejected : RejectedKeys := .empty
  warnings : List Text := []

namespace Collection

def reject (c : Collection) (key : Text) : Collection := { c with rejected := c.rejected.add key }

def add (c : Collection) (key value : Text) : Collection :=
  if Key.isValid key then { c with keys := c.keys.insert key value } else c.reject key

def addLiteral (c : Collection) (literal : Text) (base : Text := []) : Logged Collection := do
  match ← (Literal.flatten c.limits base literal).run with
  | .ok f =>
    return { c with keys := c.keys.insertAll f.entries.entries, rejected := c.rejected.addAll f.rejected.toList }
  | .error fault =>
    match fault.report? with
    | some r =>
      Logged.log ⟨.warning, "Skipping oversized literal", ("file", .text c.file) :: r.context⟩
      return { c with warnings := c.warnings ++ [r.message] }
    | none => return c

def setPlugin (c : Collection) (id : Option Text) : Collection :=
  match c.plugin, id with
  | none, some (x :: xs) => { c with plugin := some (x :: xs) }
  | _, _ => c

def warn (c : Collection) (message : Text) : Collection := { c with warnings := c.warnings ++ [message] }

def result (c : Collection) (usedFallback : Bool := false) : Extracted :=
  { file := c.file, keys := c.keys, plugin := c.plugin, rejected := c.rejected.toList, warnings := c.warnings,
    usedFallback }

end Collection

end MessageCatalog.Extraction
