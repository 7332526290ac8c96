/-
  MessageCatalog.Json.Read — values from tokens.

  The arrays and objects that are open stand on a stack; after each token it is known
  what may follow. Of several members of one name the last counts, in the place of the
  first. A text holds one value. The host refuses integers that are too long and stacks
  that are too high.
-/

import MessageCatalog.Host
import MessageCatalog.Json.Token

namespace MessageCatalog.Json

inductive Open where
  /-- An array, its items backwards. -/
  | array (items : List Data)
  /-- An object, its members backwards, and the name of the one that is being read. -/
  | object (members : List (Data × Data)) (name : Option Text)

inductive Next where
  | value
  /-- After an opening bracket. -/
  | valueOrClose
  | nameOrClose
  | name
  | colon
  | commaOrClose
  | nothing
  deriving DecidableEq

structure Reader where
  stack : List Open := []
  next : Next := .value
  /-- The value, once it is complete. -/
  result : Option Data := none

namespace Reader

/-- A value is complete: it goes into what is open. -/
def deliver (r : Reader) (d : Data) : Reader :=
  match r.stack with
  | [] => { r with next := .nothing, result := some d }
  | .array items :: s => { r with stack := .array (d :: items) :: s, next := .commaOrClose }
  | .object members (some k) :: s =>
    { r with stack := .object ((.text k, d) :: members) none :: s, next := .commaOrClose }
  | .object _ none :: _ => r

def wantsValue (r : Reader) : Bool := r.next = .value || r.next = .valueOrClose

def openWith (r : Reader) (o : Open) (next : Next) : Reader := { r with stack := o :: r.stack, next }

def step (r : Reader) (t : Token) : Option Reader :=
  match t, r.next, r.stack with
  | .bad _, _, _ => none
  | .literal d, _, _ => if r.wantsValue then some (r.deliver d) else none
  | .openArray, _, _ => if r.wantsValue then some (r.openWith (.array []) .valueOrClose) else none
  | .openObject, _, _ => if r.wantsValue then some (r.openWith (.object [] none) .nameOrClose) else none
  | .quoted k, .name, .object members _ :: s | .quoted k, .nameOrClose, .object members _ :: s =>
    some { r with stack := .object members (some k) :: s, next := .colon }
  | .quoted k, _, _ => if r.wantsValue then some (r.deliver (.text k)) else none
  | .colon, .colon, _ => some { r with next := .value }
  | .comma, .commaOrClose, .array _ :: _ => some { r with next := .value }
  | .comma, .commaOrClose, .object _ _ :: _ => some { r with next := .name }
  | .closeArray, .valueOrClose, .array items :: s | .closeArray, .commaOrClose, .array items :: s =>
    some ({ r with stack := s }.deliver (.list items.reverse))
  | .closeObject, .nameOrClose, .object members _ :: s | .closeObject, .commaOrClose, .object members _ :: s =>
    some ({ r with stack := s }.deliver (.ofPairs members.reverse))
  | _, _, _ => none

end Reader

inductive Refusal where
  | malformed
  /-- How many digits there are. -/
  | longInteger (digits : Nat)
  | tooDeep
  deriving DecidableEq, Repr

def Refusal.ofInteger (n : Int) : Refusal := .longInteger (Text.ofNat n.natAbs).length

namespace Reader

/-- Why a token cannot follow. An integer is read before what is behind it. -/
def refusal (host : Host) (r : Reader) (t : Token) : Refusal :=
  match t with
  | .bad (some n) => if r.wantsValue && !host.spells n then .ofInteger n else .malformed
  | _ => .malformed

/-- What the host refuses of a token that may follow; `r` is the reader behind it. -/
def excess? (host : Host) (r : Reader) (t : Token) : Option Refusal :=
  match t with
  | .literal (.int n) => if host.spells n then none else some (.ofInteger n)
  | .openArray | .openObject => if r.stack.length ≤ host.room + 1 then none else some .tooDeep
  | _ => none

def stepOn (host : Host) (r : Reader) (t : Token) : Except Refusal Reader :=
  match r.step t with
  | none => .error (r.refusal host t)
  | some r' =>
    match r'.excess? host t with
    | some refused => .error refused
    | none => .ok r'

end Reader

def readTokens (host : Host) (ts : List Token) : Except Refusal Data := do
  match (← ts.foldlM (Reader.stepOn host) {}).result with
  | some d => .ok d
  | none => .error .malformed

def readOn (host : Host) (t : Text) : Except Refusal Data := readTokens host (tokens t)

end MessageCatalog.Json
