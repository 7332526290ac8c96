/-
  MessageCatalog.Data.Order — the order of values, where they have one.

  Texts are ordered by their code points, numbers by size, tuples by the first place at
  which they differ. Nothing else can be compared.
-/

import MessageCatalog.Data

namespace MessageCatalog.Data

/-- A finite number in units of the least positive one. -/
def units? : Data → Option Int
  | .bool b => some ((if b then 1 else 0) * Nat.pow 2 1074)
  | .int n => some (n * Nat.pow 2 1074)
  | .float (.finite negative m q) =>
    let n : Int := m * Nat.pow 2 (q - Binary64.minExponent).toNat
    some (if negative then -n else n)
  | _ => none

mutual

/-- Whether a value comes before another; none if they cannot be compared. -/
def less? : Data → Data → Option Bool
  | .text s, .text t => some (s < t)
  | .tuple xs, .tuple ys => lessItems? xs ys
  | a, b =>
    match a.units?, b.units? with
    | some m, some n => some (m < n)
    | _, _ => none

def lessItems? : List Data → List Data → Option Bool
  | _, [] => some false
  | [], _ :: _ => some true
  | x :: xs, y :: ys => if same x y then lessItems? xs ys else less? x y

end

/-- Into a sorted list, in front of what is not less. -/
def insertSorted? (x : Data) : List Data → Option (List Data)
  | [] => some [x]
  | y :: ys => do if ← less? y x then return y :: (← insertSorted? x ys) else return x :: y :: ys

def sorted? : List Data → Option (List Data)
  | [] => some []
  | x :: xs => (sorted? xs).bind (insertSorted? x)

end MessageCatalog.Data
