/-
  MessageCatalog.Limits — caps on the work done for one object literal.

  Lengths count code points. Quoted keys and values are measured as they are written,
  escapes included; a concatenation also by the text it denotes.
-/

namespace MessageCatalog

structure Limits where
  maxDepth : Nat := 10
  maxContentLength : Nat := 1048576
  maxKeyLength : Nat := 500
  maxValueLength : Nat := 5000
  deriving DecidableEq, Repr

end MessageCatalog
