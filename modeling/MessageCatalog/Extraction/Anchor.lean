/-
  MessageCatalog.Extraction.Anchor — recognizers for pieces of a line.

  A recognizer looks at what is left of a text, and where it has to, at the character in
  front. It gives back what it read and what is left. White space between the pieces of
  an anchor is bounded; a word ends where a letter, a digit or the low line does.
-/

import MessageCatalog.Text.Alphanumeric
import MessageCatalog.Text.Blank
import MessageCatalog.Extraction.Vocabulary

namespace MessageCatalog.Extraction.Anchor

def maxSpaces : Nat := 10

def maxKeyChars : Nat := 500

def maxValueChars : Nat := 5000

/-- The longest run in front whose members pass `p`, up to `n` of them. -/
def run (p : Code → Bool) (n : Nat) (t : Text) : Text := (t.take n).takeWhile p

/-- Past white space, at most `maxSpaces` of it. -/
def spaces (t : Text) : Text := t.drop (run Text.isSpace maxSpaces t).length

/-- Past white space, of which there has to be some. -/
def someSpaces (t : Text) : Option Text := if t.head?.any Text.isSpace then some (spaces t) else none

def spaced (c : Code) (t : Text) : Option Text :=
  match spaces t with
  | d :: r => if d == c then some (spaces r) else none
  | [] => none

/-- Whether a word character stands before or after, but not both. -/
def atBoundary (before : Option Code) (t : Text) : Bool := before.any Text.isWord != t.head?.any Text.isWord

def word (w : Text) (before : Option Code) (t : Text) : Option Text :=
  if atBoundary before t then Text.dropStart? w t else none

/-- A string without escapes, line feeds or substitutions, of 1 to `most` characters. -/
def quoted (most : Nat) (t : Text) : Option (Text × Text) :=
  match t with
  | [] => none
  | q :: r =>
    if q == '\'' || q == '"' || q == '`' then
      let body := run (fun c => c != q && c != '\n' && c != '\\' && !(q == '`' && c == '$')) most r
      if body.isEmpty then none else (Text.dropStart? [q] (r.drop body.length)).map fun s => (body, s)
    else none

def call (before : Option Code) (t : Text) : Option (CallKind × Text) :=
  CallKind.all.findSome? fun k => do
    let r ← word k.callee before t
    let s ← Text.dropStart? "(" (spaces r)
    return (k, s)

/-- A type annotation on the line, before an equals sign. -/
def typed (t : Text) : Text :=
  match t with
  | [] => []
  | c :: r => if c == ':' then r.drop (run (fun c => c != '=' && c != '\n') 300 r).length else c :: r

def equals (t : Text) : Option Text :=
  match t with
  | [] => none
  | c :: r => if c == '=' && !Text.headIs '=' r then some r else none

def startsName (c : Code) : Bool := Text.isLetter c || c == '_' || c == '$'

def continuesName (c : Code) : Bool := Text.isWord c || c == '$'

/-- A name of at most `1 + most` characters, and past the equals sign that follows it,
with an annotation between them allowed. -/
def assigned (most : Nat) (t : Text) : Option (Text × Text) :=
  match t with
  | [] => none
  | c :: r =>
    if startsName c then
      let more := run continuesName most r
      (equals (typed (spaces (r.drop more.length)))).map fun s => (c :: more, s)
    else none

/-- An exported constant or variable with an initial value: its name. -/
def exported (keywords : List Text) (most : Nat) (before : Option Code) (t : Text) : Option (Text × Text) := do
  let r ← word "export" before t
  let r ← someSpaces r
  let r ← keywords.findSome? fun k => Text.dropStart? k r
  let r ← someSpaces r
  assigned most r

def property (name : Text) (before : Option Code) (t : Text) : Option Text :=
  (word name before t).bind (spaced ':')

def textProperty (name : Text) (before : Option Code) (t : Text) : Option (Text × Text) :=
  (property name before t).bind (quoted maxKeyChars)

def inlineCallee (before : Option Code) (t : Text) : Option Text :=
  let direct : Option Text :=
    if before.any fun c => continuesName c || c == '.' then none else Text.dropStart? "t" t
  let member : Option Text := ((word "i18n" before t).bind (spaced '.')).bind (Text.dropStart? "t")
  let hook : Option Text :=
    (((word "useTranslation" before t).bind (spaced '(')).bind (Text.dropStart? ")")).bind fun r =>
      (spaced '.' r).bind (Text.dropStart? "t")
  direct <|> member <|> hook

/-- An inline call with its key and, if it has one, its value. -/
def inlineCall (before : Option Code) (t : Text) : Option ((Text × Option Text) × Text) := do
  let r ← inlineCallee before t
  let r ← spaced '(' r
  let (key, r) ← quoted maxKeyChars r
  match (spaced ',' r).bind (quoted maxValueChars) with
  | some (value, s) => return ((key, some value), s)
  | none => return ((key, none), r)

def elementKey (before : Option Code) (t : Text) : Option (Text × Text) := do
  let r ← word "i18nKey" before t
  let r ← spaced '=' r
  let r := if Text.headIs '{' r then spaces r.tail else spaces r
  quoted maxKeyChars r

/-! ## Searching -/

structure Found (α : Type) where
  value : α
  /-- The text from the match on. -/
  start : Text
  /-- The text after the match. -/
  rest : Text

/-- Every match, from left to right; the next search starts where a match ends. -/
def findAll {α : Type} (recognize : Option Code → Text → Option (α × Text)) (before : Option Code) (t : Text) :
    List (Found α) :=
  match t with
  | [] => []
  | c :: r =>
    match recognize before (c :: r) with
    | some (a, rest) =>
      if rest.length < (c :: r).length then
        ⟨a, c :: r, rest⟩ :: findAll recognize (Text.upTo (c :: r) rest).getLast? rest
      else findAll recognize (some c) r
    | none => findAll recognize (some c) r
termination_by t.length
decreasing_by
  · assumption
  all_goals exact Nat.lt_succ_self _

def findFirst {α : Type} (recognize : Option Code → Text → Option α) (before : Option Code) : Text → Option α
  | [] => none
  | c :: r => recognize before (c :: r) <|> findFirst recognize (some c) r

end MessageCatalog.Extraction.Anchor
