/-
  MessageCatalog.Data — the values of documents.

  A mapping is a list of pairs whose keys may be any value that can be hashed: scalars,
  and tuples of such. Keys are compared as numbers where they are: `true`, `1` and `1.0`
  are one key, written as it was first.
-/

import MessageCatalog.Data.Binary64
import MessageCatalog.Table
import MessageCatalog.Text.Display

namespace MessageCatalog

inductive Data where
  | null
  | bool (b : Bool)
  | int (n : Int)
  | float (x : Binary64)
  | text (t : Text)
  | list (items : List Data)
  /-- A list that can be a key. -/
  | tuple (items : List Data)
  | mapping (pairs : List (Data × Data))
  deriving Inhabited, Repr

namespace Data

/-- The integer a number equals, truth values being numbers. -/
def integer? : Data → Option Int
  | .bool b => some (if b then 1 else 0)
  | .int n => some n
  | .float x => x.toInt?
  | _ => none

def sameScalar (a b : Data) : Bool :=
  match a.integer?, b.integer? with
  | some m, some n => m == n
  | none, none =>
    match a, b with
    | .null, .null => true
    | .float x, .float y => x.same y
    | .text s, .text t => s == t
    | _, _ => false
  | _, _ => false

mutual

/-- Equal as keys. -/
def same : Data → Data → Bool
  | .tuple xs, .tuple ys => sameList xs ys
  | .tuple _, _ => false
  | .list xs, .list ys => sameList xs ys
  | .list _, _ => false
  | .mapping ps, .mapping qs => ps.length == qs.length && samePairs ps qs
  | .mapping _, _ => false
  | a, b => sameScalar a b

def sameList : List Data → List Data → Bool
  | [], [] => true
  | x :: xs, y :: ys => same x y && sameList xs ys
  | _, _ => false

/-- Every pair of the first list occurs in the second. -/
def samePairs : List (Data × Data) → List (Data × Data) → Bool
  | [], _ => true
  | (k, v) :: ps, qs => qs.any (fun q => same k q.1 && same v q.2) && samePairs ps qs

end

instance : BEq Data := ⟨same⟩

mutual

def isHashable : Data → Bool
  | .list _ | .mapping _ => false
  | .tuple xs => areHashable xs
  | _ => true

def areHashable : List Data → Bool
  | [] => true
  | x :: xs => isHashable x && areHashable xs

end

/-- The mapping with these pairs, later values winning. -/
def ofPairs (ps : List (Data × Data)) : Data := .mapping (Table.ofList ps).entries

def pairs? : Data → Option (List (Data × Data))
  | .mapping ps => some ps
  | _ => none

/-- The items of a list, the characters of a text, the keys of a mapping. -/
def items? : Data → Option (List Data)
  | .list xs | .tuple xs => some xs
  | .text t => some (t.map fun c => .text [c])
  | .mapping ps => some (ps.map (·.1))
  | _ => none

def isText : Data → Bool
  | .text _ => true
  | _ => false

def get? (ps : List (Data × Data)) (k : Data) : Option Data := (ps.find? (·.1 == k)).map (·.2)

def ofTexts (ts : List Text) : Data := .list (ts.map .text)

def ofTable (t : Table Text Text) : Data := .mapping (t.entries.map fun e => (.text e.1, .text e.2))

/-! ## Showing -/

mutual

/-- The value as messages show it inside another. -/
def display : Data → Text
  | .null => "None"
  | .bool b => if b then "True" else "False"
  | .int n => Text.ofInt n
  | .float x => x.toText
  | .text t => t.display
  | .list xs => "[" ++ displayItems xs ++ "]"
  | .tuple [x] => "(" ++ display x ++ ",)"
  | .tuple xs => "(" ++ displayItems xs ++ ")"
  | .mapping ps => "\x7b" ++ displayPairs ps ++ "\x7d"

def displayItems : List Data → Text
  | [] => []
  | [x] => display x
  | x :: xs => display x ++ ", " ++ displayItems xs

def displayPairs : List (Data × Data) → Text
  | [] => []
  | [(k, v)] => display k ++ ": " ++ display v
  | (k, v) :: ps => display k ++ ": " ++ display v ++ ", " ++ displayPairs ps

end

/-- The value on its own: a text stands for itself. -/
def toText : Data → Text
  | .text t => t
  | d => d.display

def kindName : Data → Text
  | .null => "NoneType"
  | .bool _ => "bool"
  | .int _ => "int"
  | .float _ => "float"
  | .text _ => "str"
  | .list _ => "list"
  | .tuple _ => "tuple"
  | .mapping _ => "dict"

end Data

end MessageCatalog
