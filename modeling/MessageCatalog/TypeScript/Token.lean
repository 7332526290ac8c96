/-
  MessageCatalog.TypeScript.Token — the tokens of TypeScript.

  A scanner looks at the front of a text and tells how many code points its token takes.
  Which token is looked for depends on the construct, so a slash starts a regular
  expression exactly where an operand may stand.
-/

import MessageCatalog.Text

namespace MessageCatalog.TypeScript

/-- The length of a token at the front of a text. -/
abbrev Scanner := Text → Option Nat

namespace Token

/-! ## White space and names -/

/-- White space between tokens, line ends included. -/
def isBlank (c : Code) : Bool :=
  (9 ≤ c && c ≤ 13) || c == ' ' || c == 0x85 || c == 0xA0 || c == 0x1680 || (0x2000 ≤ c && c ≤ 0x200B) ||
    c == 0x2028 || c == 0x2029 || c == 0x202F || c == 0x205F || c == 0x2060 || c == 0x3000 || c == 0xFEFF

def isLineBreak (c : Code) : Bool := c == '\n' || c == '\r' || c == 0x2028 || c == 0x2029

/-- ASCII characters with a meaning of their own. -/
def isPunctuation (c : Code) : Bool :=
  (33 ≤ c && c ≤ 47 && c != '$') || (58 ≤ c && c ≤ 64) || (91 ≤ c && c ≤ 96 && c != '_') || (123 ≤ c && c ≤ 126)

/-- Every character that is neither white space, a control, nor punctuation. -/
def continuesName (c : Code) : Bool := 32 < c && !isPunctuation c && !isBlank c

def startsName (c : Code) : Bool := continuesName c && !Text.isDigit c

/-- The length of a `\uXXXX` or `\u{X}` at the front, which a name may hold. -/
def nameEscape (t : Text) : Option Nat :=
  match t with
  | b :: u :: r =>
    if b == '\\' && u == 'u' then
      if Text.headIs '{' r then
        let ds := r.tail.takeWhile Text.isHexDigit
        if !ds.isEmpty && Text.headIs '}' (r.drop (ds.length + 1)) then some (ds.length + 4) else none
      else if (r.take 4).length = 4 && (r.take 4).all Text.isHexDigit then some 6
      else none
    else none
  | _ => none

def nameRest (t : Text) (size : Nat) : Nat :=
  match t with
  | [] => size
  | c :: r =>
    if continuesName c then nameRest r (size + 1)
    else
      match nameEscape (c :: r) with
      | some (n + 1) => nameRest (r.drop n) (size + n + 1)
      | _ => size
termination_by t.length
decreasing_by all_goals simp; try omega

/-- Any name, reserved or not. -/
def name : Scanner := fun t =>
  match t with
  | [] => none
  | c :: r =>
    if startsName c then some (nameRest r 1)
    else (nameEscape (c :: r)).map fun n => nameRest (r.drop (n - 1)) n

def reservedWords : List Text := ([
  "break", "case", "catch", "class", "const", "continue", "debugger", "default", "delete", "do", "else", "enum",
  "export", "extends", "false", "finally", "for", "function", "if", "import", "in", "instanceof", "new", "null",
  "return", "super", "switch", "this", "throw", "true", "try", "typeof", "var", "void", "while", "with"]
  : List String).map Text.ofString

def identifier : Scanner := fun t =>
  (name t).bind fun n => if reservedWords.contains (t.take n) then none else some n

def word (w : Text) : Scanner := fun t =>
  (Text.dropStart? w t).bind fun r => if r.head?.any continuesName || Text.headIs '\\' r then none else some w.length

def sign (s : Text) : Scanner := fun t => if s.isPrefixOf t then some s.length else none

def signBut (s : Text) (but : List Char) : Scanner := fun t =>
  (Text.dropStart? s t).bind fun r => if but.any fun c => Text.headIs c r then none else some s.length

/-- A question mark that does not start a chain and is not doubled. -/
def question : Scanner := fun t =>
  (Text.dropStart? "?" t).bind fun r =>
    if Text.headIs '?' r || (Text.headIs '.' r && !r.tail.head?.any Text.isDigit) then none else some 1

/-- The sign of an optional chain. -/
def chain : Scanner := fun t =>
  (Text.dropStart? "?." t).bind fun r => if r.head?.any Text.isDigit then none else some 2

def privateName : Scanner := fun t => (Text.dropStart? "#" t).bind fun r => (name r).map (· + 1)

/-! ## Literals -/

def escapeSize : Text → Option Nat
  | [] => none
  | c :: r =>
    if c == 'x' then if (r.take 2).length = 2 && (r.take 2).all Text.isHexDigit then some 3 else none
    else if c == 'u' then
      if Text.headIs '{' r then
        let ds := r.tail.takeWhile Text.isHexDigit
        if !ds.isEmpty && Text.headIs '}' (r.drop (ds.length + 1)) then some (ds.length + 3) else none
      else if (r.take 4).length = 4 && (r.take 4).all Text.isHexDigit then some 5
      else none
    else if c == '\r' then if Text.headIs '\n' r then some 2 else some 1
    else some 1

/-- The length up to the end of a string with the quote `q`, counted from `size` on. -/
def stringRest (q : Code) (t : Text) (size : Nat) : Option Nat :=
  match t with
  | [] => none
  | c :: r =>
    if c == q then some (size + 1)
    else if c == '\n' || c == '\r' then none
    else if c == '\\' then
      match escapeSize r with
      | some n => stringRest q (r.drop n) (size + 1 + n)
      | none => none
    else stringRest q r (size + 1)
termination_by t.length
decreasing_by all_goals simp; try omega

def string : Scanner := fun t =>
  match t with
  | [] => none
  | q :: r => if q == '\'' || q == '"' then stringRest q r 1 else none

/-- Plain characters and escapes of a template, at least one. -/
def templateChars : Scanner := fun t => go t 0
where
  go (t : Text) (size : Nat) : Option Nat :=
    let done := if size = 0 then none else some size
    match t with
    | [] => done
    | c :: r =>
      if c == '`' || (c == '$' && Text.headIs '{' r) then done
      else if c == '\\' then
        match escapeSize r with
        | some n => go (r.drop n) (size + 1 + n)
        | none => done
      else go r (size + 1)
  termination_by t.length
  decreasing_by all_goals simp; try omega

/-- The length of a run of digits with single low lines between them. -/
def digits (p : Code → Bool) (t : Text) : Nat :=
  match t with
  | [] => 0
  | c :: r =>
    if p c then 1 + digits p r
    else if c == '_' && r.head?.any p then 1 + digits p r
    else 0

def exponent (t : Text) : Nat :=
  match t with
  | [] => 0
  | c :: r =>
    if c == 'e' || c == 'E' then
      let s := if Text.headIs '+' r || Text.headIs '-' r then 1 else 0
      let n := digits Text.isDigit (r.drop s)
      if n = 0 then 0 else 1 + s + n
    else 0

def number : Scanner := fun t =>
  let based (marks : List Char) (p : Code → Bool) : Option Nat :=
    if Text.headIs '0' t && marks.any fun m => Text.headIs m t.tail then
      let n := digits p (t.drop 2)
      if n = 0 then none else some (2 + n + (if Text.headIs 'n' (t.drop (2 + n)) then 1 else 0))
    else none
  let plain : Option Nat :=
    let n := digits Text.isDigit t
    if n = 0 then
      if Text.headIs '.' t then
        let m := digits Text.isDigit t.tail
        if m = 0 then none else some (1 + m + exponent (t.drop (1 + m)))
      else none
    else if Text.headIs 'n' (t.drop n) then some (n + 1)
    else
      let m := if Text.headIs '.' (t.drop n) then 1 + digits Text.isDigit (t.drop (n + 1)) else 0
      some (n + m + exponent (t.drop (n + m)))
  let size :=
    based ['x', 'X'] Text.isHexDigit <|> based ['o', 'O'] (fun c => 48 ≤ c && c ≤ 55) <|>
      based ['b', 'B'] (fun c => 48 ≤ c && c ≤ 49) <|> plain
  size.bind fun n => if (t.drop n).head?.any startsName then none else some n

def regexRest (inClass : Bool) (t : Text) (size : Nat) : Option Nat :=
  match t with
  | [] => none
  | c :: r =>
    if isLineBreak c then none
    else if c == '\\' then
      match r with
      | [] => none
      | d :: s => if isLineBreak d then none else regexRest inClass s (size + 2)
    else if c == '[' then regexRest true r (size + 1)
    else if c == ']' then regexRest false r (size + 1)
    else if c == '/' && !inClass then some (size + 1 + (r.takeWhile Text.isLetter).length)
    else regexRest inClass r (size + 1)

def regex : Scanner := fun t =>
  (Text.dropStart? "/" t).bind fun r =>
    if Text.headIs '/' r || Text.headIs '*' r then none else regexRest false r 1

/-! ## Elements -/

def elementName : Scanner := fun t =>
  match t with
  | [] => none
  | c :: r => if startsName c then some (1 + (r.takeWhile fun c => continuesName c || c == '-').length) else none

def elementText : Scanner := fun t =>
  let n := (t.takeWhile fun (c : Code) => c != '{' && c != '}' && c != '<' && c != '>' && c != '&').length
  if n = 0 then none else some n

def reference : Scanner := fun t =>
  (Text.dropStart? "&" t).bind fun r =>
    let closed (most n skipped : Nat) : Option Nat :=
      if 0 < n && n ≤ most && Text.headIs ';' (r.drop (skipped + n)) then some (skipped + n + 2) else none
    if Text.headIs '#' r then
      let s := r.tail
      if Text.headIs 'x' s || Text.headIs 'X' s then closed 6 (s.tail.takeWhile Text.isHexDigit).length 2
      else closed 5 (s.takeWhile Text.isDigit).length 1
    else closed 30 (r.takeWhile Text.isLetter).length 0

/-- The length up to the end of an attribute's string, which has no escapes. -/
def attributeRest (q : Code) (t : Text) (size : Nat) : Option Nat :=
  match t with
  | [] => none
  | c :: r =>
    if c == q then some (size + 1)
    else if c == '&' && r.head?.any (fun d => Text.isLetter d || d == '#') then
      match reference (c :: r) with
      | some n => attributeRest q (r.drop (n - 1)) (size + n)
      | none => none
    else attributeRest q r (size + 1)
termination_by t.length
decreasing_by all_goals simp; try omega

def attributeString : Scanner := fun t =>
  match t with
  | [] => none
  | q :: r => if q == '\'' || q == '"' then attributeRest q r 1 else none

/-! ## Between tokens -/

/-- The length of the comment at the front; none if there is none or it is not closed. -/
def comment : Scanner := fun t =>
  match t with
  | c :: d :: r =>
    if c == '/' && d == '/' then some (2 + (r.takeWhile fun c => !isLineBreak c).length)
    else if c == '/' && d == '*' then block r 2
    else none
  | _ => none
where
  block (t : Text) (size : Nat) : Option Nat :=
    match t with
    | [] => none
    | c :: r => if c == '*' && Text.headIs '/' r then some (size + 2) else block r (size + 1)

def hashbang : Scanner := fun t =>
  if Text.dropStart? "#!" t |>.isSome then some (t.takeWhile fun c => !isLineBreak c).length else none

end Token

end MessageCatalog.TypeScript
