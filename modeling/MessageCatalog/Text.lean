/-
  MessageCatalog.Text — texts as lists of code points.

  A decoded string literal can hold a lone surrogate, which no `String` can, so every
  text of the library is a list of code points. Literal constants are written as
  ordinary characters and strings and coerce.
-/

namespace MessageCatalog

/-- A code point, lone surrogates included. -/
abbrev Code := Nat

abbrev Text := List Code

instance : Coe Char Code := ⟨Char.toNat⟩

namespace Text

def ofString (s : String) : Text := s.toList.map Char.toNat

instance : Coe String Text := ⟨ofString⟩

def isSurrogate (c : Code) : Bool := 0xD800 ≤ c && c ≤ 0xDFFF

/-- A text a `String` can hold. -/
def isScalar (t : Text) : Bool := t.all fun c => c < 0x110000 && !isSurrogate c

/-- Meant for scalar texts; any other code point becomes NUL. -/
def toString (t : Text) : String := String.ofList (t.map Char.ofNat)

def ofNat (n : Nat) : Text := ofString (Nat.repr n)

def ofInt : Int → Text
  | .ofNat n => ofNat n
  | .negSucc n => '-' :: ofNat (n + 1)

/-! ## Cutting and joining -/

def joinWith (sep : Text) (parts : List Text) : Text := sep.intercalate parts

/-- The pieces between occurrences of `c`; one piece more than there are occurrences. -/
def splitOn (c : Code) : Text → List Text
  | [] => [[]]
  | d :: r =>
    match splitOn c r with
    | piece :: rest => if d = c then [] :: piece :: rest else (d :: piece) :: rest
    | [] => [[d]]

def dropStart? (start : Text) (t : Text) : Option Text :=
  if start.isPrefixOf t then some (t.drop start.length) else none

/-- The text less an ending; none if it does not end so. -/
def dropEnd? (ending : Text) (t : Text) : Option Text :=
  if ending.isSuffixOf t then some (t.take (t.length - ending.length)) else none

def headIs (c : Code) (t : Text) : Bool := t.head? == some c

/-- What stands before `rest`, a tail of `t`. -/
def upTo (t rest : Text) : Text := t.take (t.length - rest.length)

def trimBy (p : Code → Bool) (t : Text) : Text := (((t.dropWhile p).reverse).dropWhile p).reverse

def contains (part : Text) : Text → Bool
  | [] => part.isEmpty
  | c :: r => part.isPrefixOf (c :: r) || contains part r

/-- Name and last piece around the last `c`: everything is the last piece if there is none. -/
def cutLast (c : Code) (t : Text) : Text × Text :=
  if c ∈ t then
    let last := (t.reverse.takeWhile (· ≠ c)).reverse
    (t.take (t.length - last.length - 1), last)
  else ([], t)

def window (t : Text) (start stop : Nat) : Text := (t.take stop).drop start

/-! ## ASCII classes -/

def isDigit (c : Code) : Bool := 48 ≤ c && c ≤ 57

def isUpper (c : Code) : Bool := 65 ≤ c && c ≤ 90

def isLower (c : Code) : Bool := 97 ≤ c && c ≤ 122

def isLetter (c : Code) : Bool := isUpper c || isLower c

def isHexDigit (c : Code) : Bool := isDigit c || (97 ≤ c && c ≤ 102) || (65 ≤ c && c ≤ 70)

def hexDigit (c : Code) : Nat := if isDigit c then c - 48 else if c ≤ 70 then c - 55 else c - 87

def hexValue (ds : Text) : Nat := ds.foldl (fun n d => n * 16 + hexDigit d) 0

def digitValue (ds : Text) : Nat := ds.foldl (fun n d => n * 10 + (d - 48)) 0

/-- `n` in lower-case hexadecimal, padded with zeros to `width` digits. -/
def hex (width n : Nat) : Text :=
  let ds : Text := ofString (String.ofList (Nat.toDigits 16 n))
  List.replicate (width - ds.length) ('0' : Code) ++ ds

end Text

end MessageCatalog
