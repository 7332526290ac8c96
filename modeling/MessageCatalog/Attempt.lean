/-
  MessageCatalog.Attempt — operations that log and may fail; what was logged before a
  failure stays logged.
-/

import MessageCatalog.Fault
import MessageCatalog.Journal

namespace MessageCatalog

abbrev Attempt (α : Type) := ExceptT Fault Logged α

namespace Attempt

def run {α : Type} (x : Attempt α) : Logged (Except Fault α) := ExceptT.run x

def ofLogged {α : Type} (x : Logged α) : Attempt α := ExceptT.lift x

def ofExcept {α : Type} (x : Except Fault α) : Attempt α := ExceptT.mk (pure x)

def log (r : Record) : Attempt Unit := ofLogged (Logged.log r)

end Attempt

end MessageCatalog
