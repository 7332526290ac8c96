/-
  MessageCatalog.Text.Ranges — sets of code points as lists of inclusive ranges.
-/

import MessageCatalog.Text

namespace MessageCatalog.Text

abbrev Ranges := List (Code × Code)

def Ranges.covers (rs : Ranges) (c : Code) : Bool := rs.any fun r => r.1 ≤ c && c ≤ r.2

end MessageCatalog.Text
