/-
  MessageCatalog.Json.Token — the tokens of JSON text.

  A text is read character by character. Quoted text ends at its quote; a literal is a
  longest run of letters, digits, signs and points and has to be a number or one of the
  known words; between tokens there may be spaces, tabs and line ends. In quoted text
  control characters are escaped, and an escaped high surrogate joins an escaped low one
  right after it.
-/

import MessageCatalog.Data

namespace MessageCatalog.Json

inductive Token where
  | openObject
  | closeObject
  | openArray
  | closeArray
  | comma
  | colon
  | quoted (t : Text)
  /-- A number, a truth value or null. -/
  | literal (d : Data)
  /-- What is no token, and the integer it starts with, if it does. -/
  | bad (integer : Option Int := none)

/-! ## Literals -/

/-- The digits of a whole number, without leading zeros, and the rest. -/
def whole? (t : Text) : Option (Text × Text) :=
  match t.takeWhile Text.isDigit with
  | [] => none
  | d :: ds => if d == '0' then some ([d], t.tail) else some (d :: ds, t.drop (ds.length + 1))

/-- An integer, or a decimal with a fraction or an exponent. -/
def number? (t : Text) : Option Data := do
  let negative := Text.headIs '-' t
  let (digits, r) ← whole? (if negative then t.tail else t)
  match r with
  | [] =>
    let n : Int := Text.digitValue digits
    return .int (if negative then -n else n)
  | c :: r' =>
    if (c == '.' && r'.head?.any Text.isDigit) || c == 'e' || c == 'E' then
      let (n, e) ← Binary64.decimal? (digits ++ r)
      return .float (Binary64.ofDecimal negative n e)
    else none

def isLiteralChar (c : Code) : Bool :=
  Text.isLetter c || Text.isDigit c || c == '-' || c == '+' || c == '.'

def literal? (t : Text) : Option Data :=
  if t = "null" then some .null
  else if t = "true" then some (.bool true)
  else if t = "false" then some (.bool false)
  else if t = "NaN" then some (.float .nan)
  else if t = "Infinity" then some (.float (.infinite false))
  else if t = "-Infinity" then some (.float (.infinite true))
  else number? t

/-- The integer a literal starts with, unless it is the whole part of a decimal. -/
def leadingInteger? (t : Text) : Option Int := do
  let negative := Text.headIs '-' t
  let (digits, r) ← whole? (if negative then t.tail else t)
  let digitsFollow (t : Text) : Bool := t.head?.any Text.isDigit
  let unsigned (t : Text) : Text := if Text.headIs '+' t || Text.headIs '-' t then t.tail else t
  let continued :=
    match r with
    | c :: r' => if c == '.' then digitsFollow r' else (c == 'e' || c == 'E') && digitsFollow (unsigned r')
    | [] => false
  let n : Int := Text.digitValue digits
  if continued then none else some (if negative then -n else n)

def Token.ofLiteral (t : Text) : Token :=
  match literal? t with
  | some d => .literal d
  | none => .bad (leadingInteger? t)

/-! ## Quoted text -/

/-- What a character after a backslash stands for, where it is one character. -/
def shortEscape? (c : Code) : Option Code :=
  if c == '"' || c == '\\' || c == '/' then some c
  else if c == 'b' then some 8
  else if c == 'f' then some 12
  else if c == 'n' then some 10
  else if c == 'r' then some 13
  else if c == 't' then some 9
  else none

def isHigh (c : Code) : Bool := 0xD800 ≤ c && c < 0xDC00

def isLow (c : Code) : Bool := 0xDC00 ≤ c && c < 0xE000

def join (high low : Code) : Code := 0x10000 + (high - 0xD800) * 0x400 + (low - 0xDC00)

/-- Quoted text so far, backwards; `high` if it ends in an escaped high surrogate. -/
structure Quote where
  seen : Text := []
  high : Bool := false

namespace Quote

def add (q : Quote) (c : Code) : Quote := ⟨c :: q.seen, false⟩

def addUnit (q : Quote) (u : Code) : Quote :=
  match q.high && isLow u, q.seen with
  | true, h :: seen => ⟨join h u :: seen, false⟩
  | _, seen => ⟨u :: seen, isHigh u⟩

end Quote

/-! ## Lexing -/

inductive Place where
  | between
  /-- In a literal; what was read of it, backwards. -/
  | literal (seen : Text)
  | quoted (q : Quote)
  | escape (q : Quote)
  /-- In the four digits of an escape; what was read of them, backwards. -/
  | unit (q : Quote) (digits : Text)
  /-- Past an error. -/
  | stuck

structure Lexer where
  /-- The tokens read, backwards. -/
  tokens : List Token := []
  place : Place := .between

namespace Lexer

def put (l : Lexer) (t : Token) : Lexer := ⟨t :: l.tokens, .between⟩

def fail (l : Lexer) : Lexer := ⟨.bad none :: l.tokens, .stuck⟩

def mark? (c : Code) : Option Token :=
  if c == '\x7b' then some .openObject
  else if c == '\x7d' then some .closeObject
  else if c == '[' then some .openArray
  else if c == ']' then some .closeArray
  else if c == ',' then some .comma
  else if c == ':' then some .colon
  else none

def isBlank (c : Code) : Bool := c == ' ' || c == '\t' || c == '\n' || c == '\r'

def start (l : Lexer) (c : Code) : Lexer :=
  match mark? c with
  | some t => l.put t
  | none =>
    if isBlank c then l
    else if c == '"' then { l with place := .quoted {} }
    else if isLiteralChar c then { l with place := .literal [c] }
    else l.fail

def step (l : Lexer) (c : Code) : Lexer :=
  match l.place with
  | .between => l.start c
  | .literal seen =>
    if isLiteralChar c then { l with place := .literal (c :: seen) }
    else (l.put (Token.ofLiteral seen.reverse)).start c
  | .quoted q =>
    if c == '"' then l.put (.quoted q.seen.reverse)
    else if c == '\\' then { l with place := .escape q }
    else if c < 32 then l.fail
    else { l with place := .quoted (q.add c) }
  | .escape q =>
    if c == 'u' then { l with place := .unit q [] }
    else
      match shortEscape? c with
      | some d => { l with place := .quoted (q.add d) }
      | none => l.fail
  | .unit q digits =>
    if !Text.isHexDigit c then l.fail
    else if digits.length < 3 then { l with place := .unit q (c :: digits) }
    else { l with place := .quoted (q.addUnit (Text.hexValue (c :: digits).reverse)) }
  | .stuck => l

def finish (l : Lexer) : List Token :=
  match l.place with
  | .between | .stuck => l.tokens.reverse
  | .literal seen => (Token.ofLiteral seen.reverse :: l.tokens).reverse
  | _ => (.bad none :: l.tokens).reverse

end Lexer

/-- The tokens of a text, up to the first that is none. -/
def tokens (t : Text) : List Token := (t.foldl Lexer.step {}).finish

end MessageCatalog.Json
