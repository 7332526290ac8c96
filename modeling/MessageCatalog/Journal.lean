/-
  MessageCatalog.Journal — log records, kept as values.

  What an operation logs is part of its result: `Logged` carries the records, in order,
  beside the value.
-/

import MessageCatalog.Data

namespace MessageCatalog

inductive Level where
  | debug
  | info
  | warning
  | error
  deriving DecidableEq, Repr

namespace Level

def name : Level → Text
  | .debug => "debug"
  | .info => "info"
  | .warning => "warning"
  | .error => "error"

def rank : Level → Nat
  | .debug => 0
  | .info => 1
  | .warning => 2
  | .error => 3

end Level

structure Record where
  level : Level
  event : Text
  fields : List (Text × Data) := []

/-- The part of the program that a record's `component` names, first among the fields. -/
def Record.from (component : String) (r : Record) : Record :=
  { r with fields := ("component", .text component) :: r.fields }

structure Logged (α : Type) where
  value : α
  journal : List Record := []

namespace Logged

instance : Monad Logged where
  pure a := ⟨a, []⟩
  bind x f := let y := f x.value; ⟨y.value, x.journal ++ y.journal⟩

def log (r : Record) : Logged Unit := ⟨(), [r]⟩

def logAll (rs : List Record) : Logged Unit := ⟨(), rs⟩

end Logged

end MessageCatalog
