/-
  MessageCatalog.Sample — the first few of a list, for display.
-/

namespace MessageCatalog

/-- The first `n`; a negative `n` leaves out that many at the end. -/
def sample {α : Type} (n : Int) (xs : List α) : List α :=
  if n < 0 then xs.take (xs.length - n.natAbs) else xs.take n.toNat

end MessageCatalog
