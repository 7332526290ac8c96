/-
  MessageCatalog.Yaml.Token — the tokens of YAML text, layout included.

  Indentation opens and closes block collections. What turns out to be a key, because a
  colon follows it on its line, is marked as one after the fact: the place before it is
  remembered, for each level of brackets.
-/

import MessageCatalog.Yaml.Scalar

namespace MessageCatalog.Yaml

inductive Token where
  /-- The version a document asks for. -/
  | version (major : Nat)
  /-- A name for the start of tags. -/
  | tagHandle (handle start : Text)
  /-- Any other directive. -/
  | directive
  | documentStart
  | documentEnd
  | blockSequence
  | blockMapping
  | blockEnd
  | flowSequence
  | flowMapping
  | flowSequenceEnd
  | flowMappingEnd
  /-- The dash before an item. -/
  | dash
  | comma
  | key
  | value
  | alias (name : Text)
  | anchor (name : Text)
  | tag (handle : Option Text) (rest : Text)
  | scalar (plain : Bool) (t : Text)
  deriving DecidableEq, Repr

/-- Where a key may have started. -/
structure Candidate where
  /-- How many tokens stand before it. -/
  tokens : Nat
  /-- Whether it has to be one, for its indentation. -/
  required : Bool
  start : Cursor

structure Lexer where
  cursor : Cursor
  /-- The tokens read, backwards. -/
  tokens : List Token := []
  /-- The columns of the open block collections, innermost first. -/
  indents : List Nat := []
  /-- Per open bracket, and outside them last, where a key may have started. -/
  candidates : List (Option Candidate) := [none]
  keyAllowed : Bool := true

namespace Lexer

def isFlow (l : Lexer) : Bool := 1 < l.candidates.length

def put (l : Lexer) (t : Token) : Lexer := { l with tokens := t :: l.tokens }

def move (l : Lexer) (c : Cursor) : Lexer := { l with cursor := c }

def allow (l : Lexer) (allowed : Bool) : Lexer := { l with keyAllowed := allowed }

def putAt (l : Lexer) (n : Nat) (t : Token) : Lexer :=
  let later := l.tokens.length - n
  { l with tokens := l.tokens.take later ++ t :: l.tokens.drop later }

/-- Whether a column is further in than the innermost block collection. -/
def isDeeper (l : Lexer) (column : Nat) : Bool := l.indents.head?.all (· < column)

/-- Closes the block collections that are further in than `column`, or all. -/
def unwind (l : Lexer) (column : Option Nat) : Lexer :=
  if l.isFlow then l
  else
    let closed := l.indents.takeWhile fun i => column.all (· < i)
    { l with tokens := closed.map (fun _ => Token.blockEnd) ++ l.tokens, indents := l.indents.drop closed.length }

/-! ## Candidates -/

/-- Without the innermost candidate, which may not be a required one. -/
def dropCandidate? (l : Lexer) : Option Lexer :=
  match l.candidates with
  | some k :: cs => if k.required then none else some { l with candidates := none :: cs }
  | _ => some l

def offerCandidate? (l : Lexer) : Option Lexer :=
  if l.keyAllowed then do
    let l ← l.dropCandidate?
    let required := !l.isFlow && l.indents.head? == some l.cursor.column
    return { l with candidates := some ⟨l.tokens.length, required, l.cursor⟩ :: l.candidates.tail }
  else some l

/-- The longest a key on one line may be, the colon not counted. -/
def maxKeyLength : Nat := 1024

def isStale (here : Cursor) (k : Candidate) : Bool :=
  k.start.line != here.line || maxKeyLength < here.index - k.start.index

def dropStale? (l : Lexer) : Option Lexer := do
  let candidates ← l.candidates.mapM fun c =>
    match c with
    | none => some none
    | some k => if isStale l.cursor k then if k.required then none else some none else some (some k)
  return { l with candidates }

/-! ## Directives, tags and anchors -/

def isNameChar (c : Code) : Bool := Text.isLetter c || Text.isDigit c || c == '-' || c == '_'

def isTagChar (c : Code) : Bool :=
  Text.isLetter c || Text.isDigit c || (Text.ofString "-;/?:@&=+$,_.!~*'()[]").any (· == c)

/-- The part of a tag that names it; octets may be written in hexadecimal. -/
def tagName (t : Text) : Text × Nat :=
  match t with
  | [] => ([], 0)
  | c :: r =>
    if isTagChar c then
      let (name, n) := tagName r
      (c :: name, n + 1)
    else if c == '%' then
      match r with
      | a :: b :: s =>
        if Text.isHexDigit a && Text.isHexDigit b then
          let (name, n) := tagName s
          (Text.hexValue [a, b] :: name, n + 3)
        else ([], 0)
      | _ => ([], 0)
    else ([], 0)

def tagName? (c : Cursor) : Option (Text × Cursor) :=
  let (name, n) := tagName c.rest
  if name.isEmpty then none else some (name, c.skip n)

def endsWord (c : Cursor) : Bool := c.rest.head?.all fun (d : Code) => d == ' ' || isBreak d

/-- An exclamation mark, a name and a second mark; the first alone before a space. -/
def tagHandle? (c : Cursor) : Option (Text × Cursor) :=
  if c.peek 1 == some (' ' : Code) then some (['!'], c.next)
  else
    let name := (c.next.rest).takeWhile isNameChar
    let c := c.skip (name.length + 1)
    if c.sees '!' then some ("!" ++ name ++ "!", c.next) else none

/-- Whether a second exclamation mark stands in the word of a tag. -/
def hasHandle (c : Cursor) : Bool :=
  ((c.next.rest).takeWhile fun (d : Code) => d != ' ' && !isBreak d).any fun (d : Code) => d == '!'

def tag? (c : Cursor) : Option (Token × Cursor) := do
  let (t, c) ← tagBody? c
  if endsWord c then some (t, c) else none
where
  tagBody? (c : Cursor) : Option (Token × Cursor) :=
    if c.peek 1 == some ('<' : Code) then do
      let (name, c) ← tagName? (c.skip 2)
      if c.sees '>' then some (.tag none name, c.next) else none
    else if c.blankAhead 1 then some (.tag none ['!'], c.next)
    else do
      let (handle, c) ← if hasHandle c then tagHandle? c else some (['!'], c.next)
      let (name, c) ← tagName? c
      return (.tag (some handle) name, c)

def name? (c : Cursor) : Option (Text × Cursor) :=
  let name := (c.next.rest).takeWhile isNameChar
  let c := c.skip (name.length + 1)
  let ends := c.rest.head?.all fun (d : Code) => isBlank d || (Text.ofString "?:,]\x7d%@\x60").any (· == d)
  if !name.isEmpty && ends then some (name, c) else none

def version? (c : Cursor) : Option (Token × Cursor) :=
  let c := c.pastSpaces
  let major := c.rest.takeWhile Text.isDigit
  let c := c.skip major.length
  let minor := (c.next.rest).takeWhile Text.isDigit
  if c.sees '.' && !major.isEmpty && !minor.isEmpty then
    let c := c.skip (minor.length + 1)
    if endsWord c then some (.version (Text.digitValue major), c) else none
  else none

def handleDirective? (c : Cursor) : Option (Token × Cursor) := do
  let c := c.pastSpaces
  if c.sees '!' then
    let (handle, c) ← tagHandle? c
    if c.sees ' ' then
      let (start, c) ← tagName? c.pastSpaces
      if endsWord c then return (.tagHandle handle start, c) else none
    else none
  else none

def directive? (c : Cursor) : Option (Token × Cursor) := do
  let name := (c.next.rest).takeWhile isNameChar
  let c := c.skip (name.length + 1)
  if name.isEmpty || !endsWord c then none
  else
    let (t, c) ←
      if name == Text.ofString "YAML" then version? c
      else if name == Text.ofString "TAG" then handleDirective? c
      else some (.directive, c.toBreak)
    return (t, ← c.pastLine?)

/-! ## Steps -/

/-- Past white space, comments and line ends; after a line end a key may follow. -/
def toNext (l : Lexer) : Lexer :=
  let c := l.cursor.pastSpaces
  let c := if c.sees '#' then c.toBreak else c
  if _h : c.atBreak ∧ c.next.rest.length < l.cursor.rest.length then
    toNext { l with cursor := c.next, keyAllowed := l.keyAllowed || !l.isFlow }
  else l.move c
termination_by l.cursor.rest.length
decreasing_by exact _h.2

/-- Closes everything before a mark at the start of a line. -/
def atMargin? (l : Lexer) : Option Lexer := ((l.unwind none).dropCandidate?).map (·.allow false)

def openFlow? (l : Lexer) (t : Token) : Option Lexer := do
  let l ← l.offerCandidate?
  return (({ l with candidates := none :: l.candidates }.allow true).put t).move l.cursor.next

def closeFlow? (l : Lexer) (t : Token) : Option Lexer := do
  let l ← l.dropCandidate?
  let outer := if l.candidates.length ≤ 1 then l.candidates else l.candidates.tail
  return (({ l with candidates := outer }.allow false).put t).move l.cursor.next

def comma? (l : Lexer) : Option Lexer := do
  return ((← l.dropCandidate?).allow true |>.put .comma).move l.cursor.next

/-- Opens a block collection at `column`, in front of the token with `n` before it, if it
is further in than the innermost. -/
def openBlock (l : Lexer) (column n : Nat) (t : Token) : Lexer :=
  if !l.isFlow && l.isDeeper column then { l.putAt n t with indents := column :: l.indents } else l

def dash? (l : Lexer) : Option Lexer :=
  if !l.isFlow && !l.keyAllowed then none
  else do
    let l := l.openBlock l.cursor.column l.tokens.length .blockSequence
    return ((← l.dropCandidate?).allow true |>.put .dash).move l.cursor.next

def key? (l : Lexer) : Option Lexer :=
  if !l.isFlow && !l.keyAllowed then none
  else do
    let l := l.openBlock l.cursor.column l.tokens.length .blockMapping
    return ((← l.dropCandidate?).allow (!l.isFlow) |>.put .key).move l.cursor.next

/-- A colon: what the candidate started was a key, or the key is empty. -/
def value? (l : Lexer) : Option Lexer :=
  match l.candidates with
  | some k :: cs =>
    let l := { l with candidates := none :: cs }.putAt k.tokens .key
    some (((l.openBlock k.start.column k.tokens .blockMapping).allow false |>.put .value).move l.cursor.next)
  | _ =>
    if !l.isFlow && !l.keyAllowed then none
    else do
      let l := l.openBlock l.cursor.column l.tokens.length .blockMapping
      return ((← l.dropCandidate?).allow (!l.isFlow) |>.put .value).move l.cursor.next

def keyPart? (l : Lexer) (t : Token) (after : Cursor) (allowed : Bool := false) : Option Lexer := do
  return ((← l.offerCandidate?).allow allowed |>.put t).move after

def named? (l : Lexer) (t : Text → Token) : Option Lexer := do
  let (name, after) ← name? l.cursor
  l.keyPart? (t name) after

def tagged? (l : Lexer) : Option Lexer := do
  let (t, after) ← tag? l.cursor
  l.keyPart? t after

def quotedScalar? (l : Lexer) (double : Bool) : Option Lexer := do
  let s ← quoted? double l.cursor.next []
  l.keyPart? (.scalar false s.text) s.after

def blockScalar? (l : Lexer) (folded : Bool) : Option Lexer := do
  let l ← l.dropCandidate?
  let s ← block? folded l.indents.head? l.cursor.next
  return ((l.allow true).put (.scalar false s.text)).move s.after

/-- Whether a plain scalar may start with `d`. -/
def startsPlain (l : Lexer) (d : Code) : Bool :=
  if isBlank d then false
  else if (Text.ofString "-?:,[]\x7b\x7d#&*!|>'\"%@\x60").any (· == d) then
    !l.cursor.blankAhead 1 && (d == '-' || (!l.isFlow && (d == '?' || d == ':')))
  else true

def plainScalar? (l : Lexer) : Option Lexer :=
  let s := plain l.isFlow ((l.indents.head?.map (· + 1)).getD 0) l.cursor [] false
  l.keyPart? (.scalar true s.text) s.after s.crossesLine

def atMark? (l : Lexer) (t : Token) : Option Lexer := do
  let l ← l.atMargin?
  return (l.put t).move (l.cursor.skip 3)

def token? (l : Lexer) (d : Code) : Option Lexer :=
  let c := l.cursor
  let spaced := c.blankAhead 1
  if d == '%' && c.column = 0 then do
    let l ← l.atMargin?
    let (t, after) ← directive? c
    return (l.put t).move after
  else if c.atMark "---" then l.atMark? .documentStart
  else if c.atMark "..." then l.atMark? .documentEnd
  else if d == '[' then l.openFlow? .flowSequence
  else if d == '\x7b' then l.openFlow? .flowMapping
  else if d == ']' then l.closeFlow? .flowSequenceEnd
  else if d == '\x7d' then l.closeFlow? .flowMappingEnd
  else if d == ',' then l.comma?
  else if d == '-' && spaced then l.dash?
  else if d == '?' && (l.isFlow || spaced) then l.key?
  else if d == ':' && (l.isFlow || spaced) then l.value?
  else if d == '*' then l.named? .alias
  else if d == '&' then l.named? .anchor
  else if d == '!' then l.tagged?
  else if (d == '|' || d == '>') && !l.isFlow then l.blockScalar? (d == '>')
  else if d == '\'' || d == '"' then l.quotedScalar? (d == '"')
  else if l.startsPlain d then l.plainScalar?
  else none

def run? (l : Lexer) : Option (List Token) := do
  let l' ← l.toNext.dropStale?
  let l' := l'.unwind (some l'.cursor.column)
  match l'.cursor.rest with
  | [] => return (← (l'.unwind none).dropCandidate?).tokens.reverse
  | d :: _ =>
    let after ← l'.token? d
    if _h : after.cursor.rest.length < l.cursor.rest.length then run? after else none
termination_by l.cursor.rest.length

end Lexer

/-- The tokens of a text; a byte order mark in front is skipped. -/
def tokens? (t : Text) : Option (List Token) :=
  if t.all isPrintable then
    let t := if t.head? == some byteOrderMark then t.tail else t
    { cursor := { rest := t } : Lexer }.run?
  else none

end MessageCatalog.Yaml
