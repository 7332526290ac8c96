/-
  MessageCatalog.Json.Write — values as indented JSON text.

  Two spaces a level; characters outside ASCII stand for themselves. Keys that are not
  text are spelled as JSON: `true`, `null`, `12`, `1.5`. A tuple has no spelling, an integer
  that is too long for the host none there, and values can be nested only as deep as the
  host allows.
-/

import MessageCatalog.Data
import MessageCatalog.Host

namespace MessageCatalog.Json

/-! ## Text -/

def escape (c : Code) : Text :=
  if c == '"' || c == '\\' then [('\\' : Code), c]
  else if c == '\n' then "\\n"
  else if c == '\r' then "\\r"
  else if c == '\t' then "\\t"
  else if c = 8 then "\\b"
  else if c = 12 then "\\f"
  else if c < 32 then "\\u" ++ Text.hex 4 c
  else [c]

def quote (t : Text) : Text := "\"" ++ t.flatMap escape ++ "\""

/-! ## Keys -/

def floatText : Binary64 → Text
  | .nan => "NaN"
  | .infinite negative => if negative then "-Infinity" else "Infinity"
  | x => x.toText

/-- How a key is spelled, its length aside. -/
def keyText? : Data → Option Text
  | .null => some "null"
  | .bool b => some (if b then "true" else "false")
  | .int n => some (Text.ofInt n)
  | .float x => some (floatText x)
  | .text t => some t
  | _ => none

/-! ## Values -/

def newLine (level : Nat) : Text := "\n" ++ List.replicate (2 * level) (' ' : Code)

mutual

/-- A value at a level of nesting, where nothing stands in the way. -/
def writeAt (level : Nat) : Data → Text
  | .null => "null"
  | .bool b => if b then "true" else "false"
  | .int n => Text.ofInt n
  | .float x => floatText x
  | .text t => quote t
  | .list [] | .tuple [] => "[]"
  | .list xs | .tuple xs => "[" ++ newLine (level + 1) ++ writeItems (level + 1) xs ++ newLine level ++ "]"
  | .mapping [] => "\x7b\x7d"
  | .mapping ps => "\x7b" ++ newLine (level + 1) ++ writePairs (level + 1) ps ++ newLine level ++ "\x7d"

def writeItems (level : Nat) : List Data → Text
  | [] => []
  | [x] => writeAt level x
  | x :: xs => writeAt level x ++ "," ++ newLine level ++ writeItems level xs

def writePairs (level : Nat) : List (Data × Data) → Text
  | [] => []
  | [(k, v)] => quote ((keyText? k).getD []) ++ ": " ++ writeAt level v
  | (k, v) :: ps =>
    quote ((keyText? k).getD []) ++ ": " ++ writeAt level v ++ "," ++ newLine level ++ writePairs level ps

end

def write (d : Data) : Text := writeAt 0 d

/-! ## What stands in the way -/

inductive Obstacle where
  /-- A key without a spelling, of this kind. -/
  | key (kind : Text)
  | longInteger
  | tooDeep
  deriving DecidableEq, Repr

def keyObstacle? (host : Host) : Data → Option Obstacle
  | .int n => if host.spells n then none else some .longInteger
  | k => if (keyText? k).isSome then none else some (.key k.kindName)

mutual

/-- The first thing that cannot be written of a value with so many others around it. -/
def obstacle? (host : Host) (level : Nat) : Data → Option Obstacle
  | .int n => if host.spells n then none else some .longInteger
  | .list xs | .tuple xs => if level ≤ host.room then obstacleOfItems? host (level + 1) xs else some .tooDeep
  | .mapping ps => if level ≤ host.room then obstacleOfPairs? host (level + 1) ps else some .tooDeep
  | _ => none

def obstacleOfItems? (host : Host) (level : Nat) : List Data → Option Obstacle
  | [] => none
  | x :: xs => (obstacle? host level x).or (obstacleOfItems? host level xs)

def obstacleOfPairs? (host : Host) (level : Nat) : List (Data × Data) → Option Obstacle
  | [] => none
  | (k, v) :: ps => (keyObstacle? host k).or ((obstacle? host level v).or (obstacleOfPairs? host level ps))

end

def writeOn (host : Host) (d : Data) : Except Obstacle Text :=
  match obstacle? host 0 d with
  | some o => .error o
  | none => .ok (write d)

end MessageCatalog.Json
