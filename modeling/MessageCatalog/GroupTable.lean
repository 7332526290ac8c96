/-
  MessageCatalog.GroupTable — reference tables per plugin, merged from one file after
  another.

  A later file wins: a key whose text it changes is recorded as overwritten. A file
  without a plugin, or with a reserved name for one, is skipped.
-/

import MessageCatalog.Diagnostics
import MessageCatalog.Document
import MessageCatalog.Extraction.Collection
import MessageCatalog.Plugin

namespace MessageCatalog

open Extraction (Extracted)

structure GroupTable where
  groups : Table Text (Table Text Text) := .empty
  diagnostics : Diagnostics := {}

namespace GroupTable

/-- The plugin a file names, else the one its path tells. -/
def groupName (x : Extracted) : Option Text :=
  match x.plugin with
  | some (c :: r) => some (c :: r)
  | _ => Plugin.ofPath? x.file

/-- Why a group's name is refused. -/
def refusal (name : Option Text) : Option Text :=
  match name with
  | some (c :: r) => if Plugin.isReserved (c :: r) then some ("invalid plugin name '" ++ (c :: r) ++ "'") else none
  | _ => some "could not determine plugin name"

/-- The keys that `entries` give another text than `table` has, in their order. -/
def changedKeys (table : Table Text Text) (entries : List (Text × Text)) : List Text :=
  (entries.filter fun e => (table.get? e.1).any (· != e.2)).map (·.1)

/-- The table with one more file, and the keys it overwrote. -/
def merge (t : GroupTable) (x : Extracted) : Logged (GroupTable × List Text) := do
  let name := groupName x
  match refusal name with
  | some reason => return ({ t with diagnostics := ← t.diagnostics.recordSkip x.file reason }, [])
  | none =>
    let plugin := name.getD []
    let table := (t.groups.get? plugin).getD .empty
    let changed := changedKeys table x.keys.entries
    let diagnostics ← t.diagnostics.recordOverwrite plugin x.file changed
    return ({ groups := t.groups.insert plugin (table.insertAll x.keys.entries), diagnostics }, changed)

/-- The document with the tables: per plugin, per language. -/
def toData (t : GroupTable) : Data :=
  .mapping (t.groups.entries.map fun g => (.text g.1, .mapping [(.text Document.sourceLanguage, .ofTable g.2)]))

def keyCount (t : GroupTable) : Nat := Table.total Table.size t.groups.entries

end GroupTable

end MessageCatalog
