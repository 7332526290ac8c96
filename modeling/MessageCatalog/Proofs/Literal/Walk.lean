/-
  MessageCatalog.Proofs.Literal.Walk — the scan of a literal as loops over positions.

  The cursors of the library hold the rest of a text, and so can neither leave it nor stand
  still. Here each of them is a loop over one text: it holds a position, stops at `stop` and
  looks at one code point at a time. Nothing keeps it in its place:
  - a look at a position where the text has no code point fails,
  - an escape takes the digits that follow it, also past `stop`, and a backslash takes two
    code points, also where only one is left,
  - a round that ends where another loop stopped may not have got on, and an object may not
    lie inside the range that is scanned.
  Where a look fails, a round has not got on, or an object does not lie inside, there is no
  result; so every loop ends. That there always is a result, and that it is that of the
  library, is a theorem (`Proofs.Literal.Progress`). An object is entered down to `maxDepth`
  only, so the scan calls itself no deeper than that.
-/

import MessageCatalog.Literal.Position
import MessageCatalog.Literal.Flatten

namespace MessageCatalog.Literal.Walk

variable (t : Text)

/-! ## Looking at the text -/

/-- What the code point at a position is like; nothing from `stop` on. -/
def looksAt (stop i : Nat) (p : Code → Bool) : Option Bool := if i < stop then t[i]?.map p else some false

/-- Where `part` first stands, whole, between two positions. -/
def find? (part : Text) (start stop : Nat) : Option Nat :=
  (List.range' start (stop - start)).find? fun i => i + part.length ≤ stop && part.isPrefixOf (t.drop i)

/-- Behind the first `part` between two positions; at the second one without any. -/
def behind (part : Text) (start stop : Nat) : Nat :=
  match find? t part start stop with
  | some i => i + part.length
  | none => stop

/-! ## Trivia, strings and braces -/

def skipTrivia (stop i : Nat) : Option Nat := do
  if _h : i < stop then
    let c ← t[i]?
    if isBlank c then skipTrivia stop (i + 1)
    else if c == '/' && i + 1 < stop then
      let d ← t[i + 1]?
      if d == '/' then
        if _h : i < behind t ['\n'] (i + 2) stop then skipTrivia stop (behind t ['\n'] (i + 2) stop) else none
      else if d == '*' then
        if _h : i < behind t ['*', '/'] (i + 2) stop then skipTrivia stop (behind t ['*', '/'] (i + 2) stop) else none
      else return i
    else return i
  else return i
termination_by stop - i
decreasing_by all_goals omega

/-- From a position in the body of a string that `q` opened. -/
def skipBody (q : Code) (stop i : Nat) : Option Nat := do
  if _h : i < stop then
    let c ← t[i]?
    if c == '\\' then skipBody q stop (i + 2)
    else if c == q then return i + 1
    else if c == '\n' && q != '`' then return i
    else skipBody q stop (i + 1)
  else return stop
termination_by stop - i

def skipString (stop i : Nat) : Option Nat := do
  let q ← t[i]?
  skipBody t q stop (i + 1)

def opensComment (stop i : Nat) (c : Code) : Option Bool :=
  if c == '/' then looksAt t stop (i + 1) fun (d : Code) => d == '/' || d == '*' else some false

def closingBrace (stop : Nat) (depth : Int) (i : Nat) : Option (Option Nat) := do
  if _h : i < stop then
    let c ← t[i]?
    if isQuote c then
      let next ← skipString t stop i
      if _h : i < next then closingBrace stop depth next else none
    else if ← opensComment t stop i c then
      let next ← skipTrivia t stop i
      if _h : i < next then closingBrace stop depth next else none
    else if c == '{' then closingBrace stop (depth + 1) (i + 1)
    else if c == '}' then if depth = 1 then return some i else closingBrace stop (depth - 1) (i + 1)
    else closingBrace stop depth (i + 1)
  else return none
termination_by stop - i

/-! ## Reading a string -/

/-- The code point that the digits in front of the next closing brace name, and the position behind that. -/
def bracedHex (stop i : Nat) : Option (Code × Nat) :=
  match find? t ['}'] i (min stop (i + 9)) with
  | some close =>
    let digits := t.window i close
    if !digits.isEmpty && digits.all Text.isHexDigit && Text.hexValue digits ≤ 0x10FFFF then
      some (Text.hexValue digits, close + 1)
    else none
  | none => none

/-- The code point that the `n` digits behind a letter name, or the letter without so many; and the
position behind it. The backslash is at `i`. Digits are looked for in the whole text. -/
def hexEscape (n : Nat) (letter : Code) (i : Nat) : Text × Nat :=
  match fixedHex n (t.drop (i + 2)) with
  | some d => ([d], i + 2 + n)
  | none => ([letter], i + 2)

def escape (stop i : Nat) : Option (Text × Nat) := do
  if stop ≤ i + 1 then return ([], stop)
  else
    let c ← t[i + 1]?
    match simpleEscape c with
    | some d => return ([d], i + 2)
    | none =>
      if c == '\r' then
        let fed ← looksAt t stop (i + 2) fun (d : Code) => d == '\n'
        return ([], if fed then i + 3 else i + 2)
      else if c == '\n' || c == 0x2028 || c == 0x2029 then return ([], i + 2)
      else if c == 'x' then return hexEscape t 2 'x' i
      else if c == 'u' then
        let braced ← looksAt t stop (i + 2) fun (d : Code) => d == '{'
        if braced then
          match bracedHex t stop (i + 3) with
          | some (d, next) => return ([d], next)
          | none => return (['u'], i + 2)
        else return hexEscape t 4 'u' i
      else return ([c], i + 2)

/-- Whether a substitution in a string in quotes `q` opens at a position where `c` stands. -/
def opensSubstitution (stop i : Nat) (q c : Code) : Option Bool :=
  if q == '`' && c == '$' then looksAt t stop (i + 1) fun (d : Code) => d == '{' else some false

/-- From a position in the body of the string that `q` opened at `opening`; `text` is what was read of
it, `limit` how far it may be looked at. -/
def readBody (q : Code) (opening limit stop : Nat) (text : Text) (i : Nat) : Option (Option Text × Nat) := do
  if _h : i < limit then
    let c ← t[i]?
    if c == q then return (some text, i + 1)
    else if c == '\\' then
      let (d, next) ← escape t stop i
      if _h : i < next then readBody q opening limit stop (text ++ d) next else none
    else if c == '\n' && q != '`' then return (none, i)
    else if ← opensSubstitution t stop i q c then
      let next ← skipString t stop opening
      return (none, next)
    else readBody q opening limit stop (text ++ [c]) (i + 1)
  else if limit < stop then
    let next ← skipString t stop opening
    return (none, next)
  else return (none, stop)
termination_by limit - i

def readString (stop : Nat) (maxLength : Option Nat) (i : Nat) : Option (Option Text × Nat) := do
  let q ← t[i]?
  if !isQuote q then return (none, i)
  else
    let limit := match maxLength with
      | none => stop
      | some n => min stop (i + 1 + n)
    readBody t q i limit stop [] (i + 1)

def unquote (literal : Text) : Option (Option Text) := do
  let s := literal.trim
  if s.isEmpty then return none
  else
    let (text, next) ← readString s s.length none 0
    return if next = s.length then text else none

/-! ## Names -/

def nameEnd (q : Code) (limit i : Nat) : Option Nat := do
  if _h : i < limit then
    let c ← t[i]?
    if c == q || c == '\n' then return i
    else if c == '\\' then nameEnd q limit (i + 2)
    else nameEnd q limit (i + 1)
  else return i
termination_by limit - i

def quotedName (limits : Limits) (stop i : Nat) : Option (Option Text × Nat) := do
  let q ← t[i]?
  let j ← nameEnd t q (min stop (i + 1 + limits.maxKeyLength)) (i + 1)
  let closed ← looksAt t stop j fun c => c == q
  if closed then
    let name ← unquote (t.window i (j + 1))
    return (some (name.getD (t.window (i + 1) j)), j + 1)
  else
    let next ← skipString t stop i
    return (none, max next (i + 1))

def identifierEnd (limit i : Nat) : Option Nat := do
  if _h : i < limit then
    let c ← t[i]?
    if Key.continuesSegment c then identifierEnd limit (i + 1) else return i
  else return i
termination_by limit - i

def identifierName (limits : Limits) (stop i : Nat) : Option (Option Text × Nat) := do
  let j ← identifierEnd t (min stop (i + limits.maxKeyLength)) (i + 1)
  let longer ← looksAt t stop j Key.continuesSegment
  if longer then
    let next ← identifierEnd t stop j
    return (none, next)
  else return (some (t.window i j), j)

/-! ## Values -/

/-- What is added to a string that ends at a position. -/
inductive Added where
  | nothing
  | noString
  /-- A string that opens at a position. -/
  | string (opening : Nat)

def added (stop i : Nat) : Option Added := do
  let j ← skipTrivia t stop i
  let plus ← looksAt t stop j fun (c : Code) => c == '+'
  if !plus then return .nothing
  else
    let k ← skipTrivia t stop (j + 1)
    let quoted ← looksAt t stop k isQuote
    if quoted then return .string k else return .noString

def joinStrings (limits : Limits) (stop : Nat) (text : Text) (i : Nat) : Option (Option Text × Nat) := do
  match ← added t stop i with
  | .nothing => return (some text, i)
  | .noString => return (none, i)
  | .string opening =>
    let (part, next) ← readString t stop (some limits.maxValueLength) opening
    match part with
    | none => return (none, next)
    | some part =>
      if limits.maxValueLength < text.length + part.length then return (none, next)
      else if _h : i < next ∧ next ≤ stop then joinStrings limits stop (text ++ part) next
      else none
termination_by stop - i

def readValue (limits : Limits) (stop i : Nat) : Option (Option Text × Nat) := do
  let (text, next) ← readString t stop (some limits.maxValueLength) i
  match text with
  | none => return (none, next)
  | some text => joinStrings t limits stop text next

def passValue (limit stop : Nat) (closers : List Code) (i : Nat) : Option Nat := do
  if _h : i < limit then
    let c ← t[i]?
    if isQuote c then
      let next ← skipString t stop i
      if _h : i < next then passValue limit stop closers next else none
    else if ← opensComment t stop i c then
      let d ← t[i + 1]?
      if closers.isEmpty && d == '/' then return i
      else
        let next ← skipTrivia t stop i
        if _h : i < next then passValue limit stop closers next else none
    else
      match closerOf c with
      | some d => passValue limit stop (d :: closers) (i + 1)
      | none =>
        if closers.head? == some c then passValue limit stop closers.tail (i + 1)
        else if closers.isEmpty && (c == ',' || c == '}' || c == '\n') then return i + 1
        else passValue limit stop closers (i + 1)
  else return i
termination_by limit - i

def skipValue (limits : Limits) (stop i : Nat) : Option Nat :=
  passValue t (min stop (i + limits.maxValueLength)) stop [] i

/-! ## The scan -/

/-- What one round of the scan finds. -/
inductive Round where
  | finished
  /-- No property. -/
  | resumed (next : Nat)
  /-- A property with the object between two braces. -/
  | object (name : Text) (opening closing : Nat)
  /-- A property with any other value, and the text that it is. -/
  | value (name : Text) (text : Option Text) (next : Nat)

def propertyName (limits : Limits) (stop i : Nat) (c : Code) : Option (Option Text × Nat) :=
  if isNameQuote c then quotedName t limits stop i else identifierName t limits stop i

def property (limits : Limits) (stop : Nat) (name : Text) (i : Nat) : Option Round := do
  if stop ≤ i then return .finished
  else
    let c ← t[i]?
    if c == '{' then
      match ← closingBrace t stop 0 i with
      | none => return .finished
      | some closing => return .object name i closing
    else if isQuote c then
      let (text, next) ← readValue t limits stop i
      return .value name text (← skipValue t limits stop next)
    else return .value name none (← skipValue t limits stop i)

def named (limits : Limits) (stop : Nat) (name : Text) (i : Nat) : Option Round := do
  let j ← skipTrivia t stop i
  let colon ← looksAt t stop j fun (c : Code) => c == ':'
  if !colon then return .resumed i
  else property t limits stop name (← skipTrivia t stop (j + 1))

def round (limits : Limits) (stop i : Nat) : Option Round := do
  let i ← skipTrivia t stop i
  if stop ≤ i then return .finished
  else
    let c ← t[i]?
    if !startsName c then return .resumed (i + 1)
    else
      let (name, nameEnd) ← propertyName t limits stop i c
      match name with
      | none => return .resumed nameEnd
      | some name => named t limits stop name nameEnd

def scan (limits : Limits) (base : Text) (depth stop i : Nat) : Option (List Emission) := do
  if _h : i < stop then
    match ← round t limits stop i with
    | .finished => return []
    | .resumed next => if _h : i < next then scan limits base depth stop next else none
    | .object name opening closing =>
      if _h : i < closing + 1 ∧ closing - (opening + 1) < stop - i then
        let key := Key.under base name
        let inner ←
          if limits.maxDepth < depth + 1 then some [.tooDeep key]
          else scan limits key (depth + 1) closing (opening + 1)
        let more ← scan limits base depth stop (closing + 1)
        return inner ++ more
      else none
    | .value name text next =>
      if _h : i < next then
        let more ← scan limits base depth stop next
        return (text.map (Emission.leaf depth (Key.under base name))).toList ++ more
      else none
  else return []
termination_by stop - i

/-! ## The literal -/

def closingAngle (stop depth i : Nat) : Option Nat := do
  if _h : i < stop then
    let c ← t[i]?
    if c == '<' then closingAngle stop (depth + 1) (i + 1)
    else if c == '>' then if depth = 1 then return i else closingAngle stop (depth - 1) (i + 1)
    else closingAngle stop depth (i + 1)
  else return i
termination_by stop - i

def passWrappers (stop i : Nat) : Option Nat := do
  if _h : i < stop then
    let c ← t[i]?
    if c == '(' then
      let next ← skipTrivia t stop (i + 1)
      if _h : i < next then passWrappers stop next else none
    else if c == '<' then
      let angle ← closingAngle t stop 0 i
      let next ← skipTrivia t stop (angle + 1)
      if _h : i < next then passWrappers stop next else none
    else return i
  else return stop
termination_by stop - i

def skipWrappers (stop i : Nat) : Option Nat := do
  let i ← skipTrivia t stop i
  passWrappers t stop i

def objectLiteral (stop i : Nat) : Option (Option (Nat × Nat)) := do
  let opening ← skipWrappers t stop i
  if stop ≤ opening then return none
  else
    let c ← t[opening]?
    if c != '{' then return none
    else
      match ← closingBrace t stop 0 opening with
      | none => return none
      | some closing => return some (opening, closing)

def emissions (limits : Limits) (base : Text) : Option (List Emission) := do
  match ← objectLiteral t t.length 0 with
  | none => return []
  | some (opening, closing) => scan t limits base 0 closing (opening + 1)

def flatten (limits : Limits) (base : Text) : Option (Attempt Flattened) := do
  if limits.maxContentLength < t.length then
    return throw (.literalTooLarge limits.maxContentLength t.length)
  else
    let es ← emissions t limits base
    return do
      if es.any Emission.isTooDeep then Attempt.log (depthNote limits base)
      return .ofEmissions es

end MessageCatalog.Literal.Walk
