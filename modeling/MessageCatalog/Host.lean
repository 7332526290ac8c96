/-
  MessageCatalog.Host — what the interpreter under the program allows.

  Calls can be nested only so deep, and an integer with too many decimal digits is neither
  read nor written.
-/

import MessageCatalog.Text

namespace MessageCatalog

structure Host where
  /-- How many calls of a function may be pending around one of its calls. -/
  room : Nat := 960
  /-- How many digits an integer may have as text, if there is a limit. -/
  maxDigits : Option Nat := some 4300
  deriving DecidableEq, Repr

namespace Host

def spells (host : Host) (n : Int) : Bool := host.maxDigits.all fun most => n.natAbs < Nat.pow 10 most

/-- What is said of an integer that is too long; of one that was to be read, with the
number of its digits. -/
def longInteger (host : Host) (digits : Option Nat) : Text :=
  let counted : Text := digits.elim [] fun n => ": value has " ++ Text.ofNat n ++ " digits"
  "Exceeds the limit (" ++ Text.ofNat (host.maxDigits.getD 0) ++ " digits) for integer string conversion" ++ counted
    ++ "; use sys.set_int_max_str_digits() to increase the limit"

end Host

end MessageCatalog
