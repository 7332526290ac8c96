/-
  MessageCatalog.Data.Binary64 — double precision numbers, read and written exactly.

  A finite number is `mantissa · 2 ^ exponent` with a mantissa below 2 ^ 53, of 53 bits
  unless the exponent is the least one. Decimals round to the nearest number, ties to
  the even mantissa. Written are the fewest digits that read back, of several such
  decimals the nearest; positional from 1e-4 up to below 1e16.
-/

import MessageCatalog.Text

namespace MessageCatalog

inductive Binary64 where
  | finite (negative : Bool) (mantissa : Nat) (exponent : Int)
  | infinite (negative : Bool)
  | nan
  deriving DecidableEq, Repr

namespace Binary64

def minExponent : Int := -1074

def maxExponent : Int := 971

def zero (negative : Bool) : Binary64 := .finite negative 0 minExponent

/-- The nearest integer to a quotient; a tie goes to the even one. -/
def roundDiv (num den : Nat) : Nat :=
  let q := num / den
  let r := num % den
  if 2 * r < den then q else if den < 2 * r then q + 1 else q + q % 2

/-- `num / den` times `base ^ (-power)`, as a quotient. -/
def scaled (base num den : Nat) (power : Int) : Nat × Nat :=
  if 0 ≤ power then (num, den * base.pow power.toNat) else (num * base.pow (-power).toNat, den)

/-- The greatest `e` with `base ^ e ≤ num / den`, from an estimate one too high at most. -/
def magnitude (base num den : Nat) (estimate : Int) : Int :=
  let (n, d) := scaled base num den estimate
  if d ≤ n then estimate else estimate - 1

def ofRatio (negative : Bool) (num den : Nat) : Binary64 :=
  if num = 0 then zero negative
  else
    let q := max (magnitude 2 num den ((num.log2 : Int) - den.log2) - 52) minExponent
    let (n, d) := scaled 2 num den q
    let m := roundDiv n d
    let (m, q) := if m = Nat.pow 2 53 then (Nat.pow 2 52, q + 1) else (m, q)
    if maxExponent < q then .infinite negative else .finite negative m q

def digitCount (n : Nat) : Nat := (Nat.toDigits 10 n).length

/-- `digits · 10 ^ exponent`, rounded. Exponents far outside the range are not expanded. -/
def ofDecimal (negative : Bool) (digits : Nat) (exponent : Int) : Binary64 :=
  let top := digitCount digits + exponent
  if digits = 0 || top < -330 then zero negative
  else if 330 < top then .infinite negative
  else if 0 ≤ exponent then ofRatio negative (digits * Nat.pow 10 exponent.toNat) 1
  else ofRatio negative digits (Nat.pow 10 (-exponent).toNat)

def ratio (mantissa : Nat) (exponent : Int) : Nat × Nat :=
  if 0 ≤ exponent then (mantissa * Nat.pow 2 exponent.toNat, 1) else (mantissa, Nat.pow 2 (-exponent).toNat)

/-- The integer a number without a fraction is. -/
def toInt? : Binary64 → Option Int
  | .finite negative m q =>
    let (n, d) := ratio m q
    if n % d = 0 then some (if negative then -(n / d : Nat) else (n / d : Nat)) else none
  | _ => none

def isFinite : Binary64 → Bool
  | .finite .. => true
  | _ => false

/-- Equal as numbers: the two zeros are, and nothing equals NaN. -/
def same : Binary64 → Binary64 → Bool
  | .finite s m q, .finite s' m' q' => m == m' && q == q' && (s == s' || m == 0)
  | .infinite s, .infinite s' => s == s'
  | _, _ => false

/-! ## Writing -/

/-- Of the two neighbours of `num / den` on the grid of `10 ^ unit` those that read back
as `m · 2 ^ q`; if both do, the nearer, and the even one of a tie. -/
def neighbour (m : Nat) (q : Int) (num den : Nat) (unit : Int) : Option Nat :=
  let (n, d) := scaled 10 num den unit
  let low := n / d
  let back (k : Nat) : Bool := ofDecimal false k unit == .finite false m q
  match back low, back (low + 1) with
  | true, true => some (roundDiv n d)
  | true, false => some low
  | false, true => some (low + 1)
  | false, false => none

/-- Fewest digits and their exponent; `fuel` bounds the number of digits tried. -/
def shortestFrom (m : Nat) (q : Int) (num den : Nat) (unit : Int) : (fuel : Nat) → Nat × Int
  | 0 => (num, 0)
  | fuel + 1 =>
    match neighbour m q num den unit with
    | some k => (k, unit)
    | none => shortestFrom m q num den (unit - 1) fuel

def shortest (m : Nat) (q : Int) : Nat × Int :=
  let (num, den) := ratio m q
  let top := magnitude 10 num den ((digitCount num : Int) - digitCount den)
  shortestFrom m q num den top 20

def dropZeros (ds : Text) : Text := ((ds.reverse).dropWhile fun (c : Code) => c == '0').reverse

def zeros (n : Nat) : Text := List.replicate n ('0' : Code)

/-- `0.digits · 10 ^ point`, with a point or an exponent always. -/
def layout (digits : Text) (point : Int) : Text :=
  if -4 < point && point ≤ 16 then
    if point ≤ 0 then "0." ++ zeros (-point).toNat ++ digits
    else if digits.length ≤ point.toNat then digits ++ zeros (point.toNat - digits.length) ++ ".0"
    else digits.take point.toNat ++ "." ++ digits.drop point.toNat
  else
    let e := point - 1
    let size := Text.ofNat e.natAbs
    let fraction : Text := if digits.length ≤ 1 then [] else "." ++ digits.drop 1
    digits.take 1 ++ fraction ++ "e" ++ (if e < 0 then "-" else "+" : Text) ++ zeros (2 - size.length) ++ size

def toText : Binary64 → Text
  | .nan => "nan"
  | .infinite negative => if negative then "-inf" else "inf"
  | .finite negative m q =>
    let body : Text :=
      if m = 0 then "0.0"
      else
        let (k, unit) := shortest m q
        let ds := Text.ofNat k
        layout (dropZeros ds) (ds.length + unit)
    if negative then "-" ++ body else body

/-! ## Reading -/

/-- Digits, with a fraction and an exponent if they follow, as `(digits, exponent)`. -/
def decimal? (t : Text) : Option (Nat × Int) :=
  let whole := t.takeWhile Text.isDigit
  let r := t.dropWhile Text.isDigit
  let fraction := if Text.headIs '.' r then r.tail.takeWhile Text.isDigit else []
  let r := if Text.headIs '.' r then r.tail.dropWhile Text.isDigit else r
  let digits := whole ++ fraction
  if digits.isEmpty then none
  else
    match r with
    | [] => some (Text.digitValue digits, -(fraction.length : Int))
    | e :: r =>
      if e == 'e' || e == 'E' then
        let negative := Text.headIs '-' r
        let ds := if negative || Text.headIs '+' r then r.tail else r
        if ds.isEmpty || !ds.all Text.isDigit then none
        else
          let e : Int := Text.digitValue ds
          some (Text.digitValue digits, (if negative then -e else e) - fraction.length)
      else none

/-- A decimal with an optional sign, or one of the words `inf` and `nan`. -/
def ofText? (t : Text) : Option Binary64 :=
  let negative := Text.headIs '-' t
  let body := if negative || Text.headIs '+' t then t.tail else t
  if body = "inf" then some (.infinite negative)
  else if body = "nan" then some .nan
  else (decimal? body).map fun (digits, exponent) => ofDecimal negative digits exponent

end Binary64

end MessageCatalog
