/-
  MessageCatalog.Literal.Flatten — an object literal as a flat table, and a flat table as
  an object literal.

  The scan's emissions are sorted by the key grammar: valid keys go to the table, the
  others to the rejected ones. Writing a table and flattening it gives back its valid
  keys.
-/

import MessageCatalog.Attempt
import MessageCatalog.Host
import MessageCatalog.Literal.Properties

namespace MessageCatalog.Literal

structure Flattened where
  entries : Table Text Text := .empty
  rejected : RejectedKeys := .empty

def Flattened.add (f : Flattened) : Emission → Flattened
  | .leaf _ key value =>
    if Key.isValid key then { f with entries := f.entries.insert key value }
    else { f with rejected := f.rejected.add key }
  | .tooDeep _ => f

def Flattened.ofEmissions (es : List Emission) : Flattened := es.foldl Flattened.add {}

def Emission.isTooDeep : Emission → Bool
  | .tooDeep _ => true
  | .leaf .. => false

/-- Everything the object literal in a text emits, under `base`. -/
def emissions (limits : Limits) (base t : Text) : List Emission :=
  match objectLiteral t with
  | none => []
  | some b => scan limits base 0 b.inside

def depthNote (limits : Limits) (base : Text) : Record :=
  ⟨.debug, "Literal nesting exceeds depth cap", [("max_depth", .int limits.maxDepth), ("prefix", .text base)]⟩

/-- The object literal in a text, flattened under `base`, where there is room for every object
that is allowed. A text that is too long is not scanned. -/
def flatten (limits : Limits) (base t : Text) : Attempt Flattened := do
  if limits.maxContentLength < t.length then
    throw (.literalTooLarge limits.maxContentLength t.length)
  let es := emissions limits base t
  if es.any Emission.isTooDeep then Attempt.log (depthNote limits base)
  return .ofEmissions es

/-! ## On a host -/

/-- What a run emits, and whether it gets to the end. -/
structure Run where
  emissions : List Emission
  isWhole : Bool

/-- The scan of an object is a call inside the scan of the one it belongs to, so the depth is
capped by the room for calls as well. But where a deeper object is allowed, the run does not
leave it unread: it ends there. -/
def runOn (host : Host) (limits : Limits) (base t : Text) : Run :=
  let es := emissions { limits with maxDepth := min limits.maxDepth host.room } base t
  if limits.maxDepth ≤ host.room then ⟨es, true⟩ else ⟨es.takeWhile (!·.isTooDeep), !es.any Emission.isTooDeep⟩

def flattenOn (host : Host) (limits : Limits) (base t : Text) : Attempt Flattened := do
  if limits.maxContentLength < t.length then
    throw (.literalTooLarge limits.maxContentLength t.length)
  let run := runOn host limits base t
  if !run.isWhole then throw (.plain .tooDeep)
  if run.emissions.any Emission.isTooDeep then Attempt.log (depthNote limits base)
  return .ofEmissions run.emissions

def flattenedKeys (limits : Limits) (base t : Text) (host : Host := {}) : Attempt (List Text) := do
  return (← flattenOn host limits base t).entries.keys

/-! ## Writing -/

def renderEntry (indent : Text) (e : Text × Text) : Text := indent ++ quote e.1 ++ ": " ++ quote e.2 ++ ","

/-- A table as an object literal, an entry a line. -/
def render (indent : Text) (es : List (Text × Text)) : Text :=
  if es.isEmpty then "\x7b\x7d"
  else Text.joinWith "\n" (("\x7b" : Text) :: es.map (renderEntry indent) ++ [("\x7d" : Text)])

end MessageCatalog.Literal
