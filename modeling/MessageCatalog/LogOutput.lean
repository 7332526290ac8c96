/-
  MessageCatalog.LogOutput — which log records are shown, and in what form.

  Debugging shows every record, in a form for people. Otherwise records from `info` on are
  shown, as JSON if that is asked for. Setting logging up takes every handler away that is
  there, and adds one.
-/

import MessageCatalog.Journal

namespace MessageCatalog

structure LogOutput where
  debug : Bool := false
  json : Bool := true
  deriving DecidableEq, Repr

namespace LogOutput

def threshold (o : LogOutput) : Level := if o.debug then .debug else .info

def shows (o : LogOutput) (l : Level) : Bool := o.threshold.rank ≤ l.rank

def isJson (o : LogOutput) : Bool := o.json && !o.debug

end LogOutput

/-! ## Handlers -/

/-- What is handed to whom. A handler is known by a number. -/
structure Logging where
  handlers : List Nat := []
  output : LogOutput := {}

namespace Logging

def detach (s : Logging) : Logging := { s with handlers := s.handlers.foldl List.erase s.handlers }

def setUp (s : Logging) (o : LogOutput) (handler : Nat) : Logging :=
  { handlers := s.detach.handlers ++ [handler], output := o }

/-- The handlers that a record is shown by, each with the record. -/
def write (s : Logging) (r : Record) : List (Nat × Record) :=
  if s.output.shows r.level then s.handlers.map fun h => (h, r) else []

def writeAll (s : Logging) (rs : List Record) : List (Nat × Record) := rs.flatMap s.write

end Logging

end MessageCatalog
