/-
  MessageCatalog.Document — interchange documents: reference tables as JSON.

  A document groups its tables by plugin and language. A flat table, bare or under
  `translations`, is also read. Which of the two it is shows in the first entry: a
  grouped document has the source language there.
-/

import MessageCatalog.Attempt
import MessageCatalog.File
import MessageCatalog.Json.Read
import MessageCatalog.Json.Write

namespace MessageCatalog.Document

/-- The language of the texts in the sources. -/
def sourceLanguage : Text := "en"

/-- The key that wraps a flat table, and the group of a table without one. -/
def wrapper : Text := "translations"

abbrev Pairs := List (Data × Data)

def mappingAt? (key : Text) (d : Data) : Option Pairs := do
  let value ← Data.get? (← d.pairs?) (.text key)
  value.pairs?

def table? (entry : Data) : Option Pairs := mappingAt? sourceLanguage entry

def isGrouped (d : Data) : Bool :=
  match d with
  | .mapping ((_, .mapping ps) :: _) => (Data.get? ps (.text sourceLanguage)).isSome
  | _ => false

/-- The entries that have a table, with it. -/
def tables (ps : Pairs) : List (Data × Pairs) := ps.filterMap fun e => (table? e.2).map fun t => (e.1, t)

def length? : Data → Option Nat
  | .text t => some t.length
  | .list xs | .tuple xs => some xs.length
  | .mapping ps => some ps.length
  | _ => none

/-- The number of keys; none for what has no length. -/
def keyCount? (d : Data) : Option Nat :=
  if isGrouped d then some (Table.total List.length (tables (d.pairs?.getD [])))
  else
    match mappingAt? wrapper d with
    | some ps => some ps.length
    | none => length? d

def keyCount (d : Data) : Except Fault Nat :=
  match keyCount? d with
  | some n => .ok n
  | none => .error (.plain .wrongType)

/-! ## What JSON refuses -/

/-- Why something is not written or not read, and what is said of it. -/
structure Trouble where
  cause : Cause
  said : Text := []

def Trouble.ofObstacle (host : Host) : Json.Obstacle → Trouble
  | .key kind => ⟨.wrongType, "keys must be str, int, float, bool or None, not " ++ kind⟩
  | .longInteger => ⟨.badValue, host.longInteger none⟩
  | .tooDeep => ⟨.tooDeep, []⟩

def Trouble.ofRefusal (host : Host) : Json.Refusal → Trouble
  | .malformed => ⟨.malformedJson, []⟩
  | .longInteger digits => ⟨.badValue, host.longInteger (some digits)⟩
  | .tooDeep => ⟨.tooDeep, []⟩

def Trouble.fault (x : Trouble) : Fault := if x.cause = .badValue then .badValue x.said else .plain x.cause

def write (host : Host) (d : Data) : Except Trouble Text := (Json.writeOn host d).mapError (.ofObstacle host)

def read (host : Host) (t : Text) : Except Trouble Data := (Json.readOn host t).mapError (.ofRefusal host)

def reread (host : Host) (d : Data) : Except Trouble Data := do read host (← write host d)

/-! ## Saving and loading -/

def text (d : Data) (host : Host := {}) : Except Fault Text := do
  return (← (write host d).mapError Trouble.fault) ++ "\n"

/-- The file of a document. Its keys are counted once it is written. -/
def save (path : Text) (d : Data) (host : Host := {}) : Attempt File := do
  let file ← Attempt.ofExcept ((File.ofText (← Attempt.ofExcept (text d host))).mapError .plain)
  let count ← Attempt.ofExcept (keyCount d)
  Attempt.log ⟨.info, "Saved interchange document", [("file", .text path), ("total_keys", .int count)]⟩
  return file

/-- The tables of a document by plugin; those of a flat one are `group`'s. -/
def groups (group : Text) (ps : Pairs) : List (Data × Pairs) :=
  if isGrouped (.mapping ps) then tables ps
  else [(.text group, (mappingAt? wrapper (.mapping ps)).getD ps)]

def load (path group : Text) (file : Option File) (host : Host := {}) : Except Fault (List (Data × Pairs)) := do
  let t ← (File.readText file).mapError .plain
  match ← (read host t).mapError Trouble.fault with
  | .mapping ps => .ok (groups group ps)
  | _ => .error (.rootNotObject path)

/-! ## Round trips -/

/-- The fault of a structure that does not come back. Nesting that is too deep is not a
matter of the structure and goes unreported. -/
def roundTripFault (artifact : Option Text) (expected : Nat) (x : Trouble) : Fault :=
  if x.cause = .tooDeep then .plain .tooDeep else .unserializable artifact expected x.cause x.said

/-- The number of keys of a structure that keeps it when it is written and read again. -/
def verifyRoundTrip (artifact : Option Text) (d : Data) (host : Host := {}) : Except Fault Nat := do
  let expected ← keyCount d
  let again ← (reread host d).mapError (roundTripFault artifact expected)
  let actual ← keyCount again
  if actual = expected then .ok expected else .error (.countMismatch artifact expected actual)

end MessageCatalog.Document
