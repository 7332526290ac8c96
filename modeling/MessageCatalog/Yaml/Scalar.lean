/-
  MessageCatalog.Yaml.Scalar — the three ways of writing a scalar.

  A plain scalar stands as it is and ends before a colon or a comment. A quoted one ends
  at its quote. A block keeps or folds its lines below an indicator. In plain and quoted
  scalars a single line end reads as a space, and of several the first is dropped.
-/

import MessageCatalog.Yaml.Cursor

namespace MessageCatalog.Yaml

/-- Line ends, folded: the first as `c`, and those after it. -/
def fold (c : Code) (more : Text) : Text :=
  if c == 0x2028 || c == 0x2029 then c :: more else if more.isEmpty then [' '] else more

/-! ## Plain -/

/-- Characters that end a plain scalar in a bracketed collection. -/
def isFlowMark (c : Code) : Bool := c == ',' || c == '[' || c == ']' || c == '\x7b' || c == '\x7d'

/-- Whether `c`, with `r` after it, ends a run of a plain scalar. -/
def endsPlain (flow : Bool) (c : Code) (r : Text) : Bool :=
  isBlank c || (c == ':' && r.head?.all fun d => isBlank d || (flow && isFlowMark d)) ||
    (flow && (isFlowMark c || c == '?'))

def plainRun (flow : Bool) : Text → Text
  | [] => []
  | c :: r => if endsPlain flow c r then [] else c :: plainRun flow r

structure Gap where
  /-- The text it reads as; empty where the scalar ends. -/
  text : Text
  after : Cursor
  crossesLine : Bool

/-- Line ends and spaces; none if a document separator comes up. -/
def plainBreaks (c : Cursor) (seen : Text) : Option Text × Cursor :=
  match _h : c.rest with
  | [] => (some seen, c)
  | d :: _ =>
    if c.atSeparator then (none, c)
    else if d == ' ' then plainBreaks c.next seen
    else if isBreak d then plainBreaks c.next (seen ++ breakText d)
    else (some seen, c)
termination_by c.rest.length
decreasing_by all_goals rw [Cursor.length_next _h, _h]; simp

def plainGap (c : Cursor) : Gap :=
  let spaces := c.rest.takeWhile fun (d : Code) => d == ' '
  let c := c.pastSpaces
  match c.rest with
  | [] => ⟨spaces, c, false⟩
  | d :: _ =>
    if isBreak d then
      match plainBreaks c.next [] with
      | (some more, after) => ⟨fold d more, after, true⟩
      | (none, after) => ⟨[], after, true⟩
    else ⟨spaces, c, false⟩

structure Scanned where
  text : Text
  after : Cursor
  /-- Whether a line end was crossed after the last character. -/
  crossesLine : Bool := false

/-- A plain scalar whose further lines start at column `indent` or beyond. -/
def plain (flow : Bool) (indent : Nat) (c : Cursor) (seen : Text) (crossed : Bool) : Scanned :=
  let run := if c.sees '#' then [] else plainRun flow c.rest
  if run.isEmpty then ⟨seen, c, crossed⟩
  else
    let gap := plainGap (c.skip run.length)
    let ends := gap.text.isEmpty || gap.after.sees '#' || (!flow && gap.after.column < indent)
    if _h : ends = false ∧ gap.after.rest.length < c.rest.length then
      -- The gap counts only if something follows it.
      let more := plain flow indent gap.after [] gap.crossesLine
      ⟨seen ++ run ++ (if more.text.isEmpty then [] else gap.text ++ more.text), more.after, more.crossesLine⟩
    else ⟨seen ++ run, gap.after, gap.crossesLine⟩
termination_by c.rest.length
decreasing_by exact _h.2

/-! ## Quoted -/

/-- Line ends and white space inside quotes; none at a document separator. -/
def quotedBreaks? (c : Cursor) (seen : Text) : Option (Text × Cursor) :=
  if c.atSeparator then none
  else
    let d := c.dropWhile isSpace
    match d.rest with
    | [] => some (seen, d)
    | b :: _ =>
      if isBreak b then
        if d.next.rest.length < c.rest.length then quotedBreaks? d.next (seen ++ breakText b) else none
      else some (seen, d)
termination_by c.rest.length

/-- White space inside quotes, which reads as it is unless it goes over a line end. -/
def quotedGap? (c : Cursor) : Option (Text × Cursor) :=
  let spaces := c.rest.takeWhile isSpace
  let c := c.skip spaces.length
  match c.rest with
  | [] => none
  | b :: _ =>
    if isBreak b then (quotedBreaks? c.next []).map fun (more, after) => (fold b more, after)
    else some (spaces, c)

/-- What a character after a backslash stands for. -/
def simpleEscapes : List (Char × Code) :=
  [('0', 0), ('a', 7), ('b', 8), ('t', 9), ('\t', 9), ('n', 10), ('v', 11), ('f', 12), ('r', 13), ('e', 27),
    (' ', 32), ('"', 34), ('\\', 92), ('/', 47), ('N', 0x85), ('_', 0xA0), ('L', 0x2028), ('P', 0x2029)]

/-- The number of digits after a character that starts a code. -/
def codeEscapes : List (Char × Nat) := [('x', 2), ('u', 4), ('U', 8)]

def escaped? {α : Type} (table : List (Char × α)) (c : Code) : Option α :=
  (table.find? fun e => e.1.toNat == c).map (·.2)

def escape? (c : Cursor) : Option (Text × Cursor) :=
  match c.next.rest with
  | [] => none
  | d :: _ =>
    match escaped? simpleEscapes d, escaped? codeEscapes d with
    | some code, _ => some ([code], c.skip 2)
    | none, some size =>
      let c := c.skip 2
      let digits := c.rest.take size
      if digits.length = size && digits.all Text.isHexDigit && Text.hexValue digits < 0x110000 then
        some ([Text.hexValue digits], c.skip size)
      else none
    | none, none => if isBreak d then quotedBreaks? (c.skip 2) [] else none

def quotedStep? (double : Bool) (c : Cursor) : Option (Text × Cursor) :=
  match c.rest with
  | [] => none
  | d :: r =>
    if double && d == '\\' then escape? c
    else if isBlank d then quotedGap? c
    else if !double && d == '\'' && Text.headIs '\'' r then some ([d], c.skip 2)
    else some ([d], c.next)

def quoted? (double : Bool) (c : Cursor) (seen : Text) : Option Scanned :=
  let quote : Code := if double then '"' else '\''
  if c.sees quote && !(!double && c.peek 1 == some quote) then some ⟨seen, c.next, false⟩
  else
    match quotedStep? double c with
    | none => none
    | some (t, after) =>
      if after.rest.length < c.rest.length then quoted? double after (seen ++ t) else none
termination_by c.rest.length

/-! ## Blocks -/

/-- What becomes of the line ends after the last line. -/
inductive Chomping where
  | strip
  | clip
  | keep
  deriving DecidableEq, Repr

structure BlockHeader where
  chomping : Chomping := .clip
  /-- The indentation, if it is given. -/
  indent : Option Nat := none

def chomping? (c : Cursor) : Option Chomping :=
  if c.sees '+' then some .keep else if c.sees '-' then some .strip else none

/-- An indentation of 1 to 9; `some none` if there is none. -/
def indentDigit? (c : Cursor) : Option (Option Nat) :=
  match c.rest with
  | [] => some none
  | d :: _ => if Text.isDigit d then if d == '0' then none else some (some (d - 48)) else some none

/-- The indicators after the mark of a block, in either order, and the rest of the line. -/
def blockHeader? (c : Cursor) : Option (BlockHeader × Cursor) := do
  let first := chomping? c
  let c := if first.isSome then c.next else c
  let indent ← indentDigit? c
  let c := if indent.isSome then c.next else c
  let second := if first.isSome then none else chomping? c
  let c := if second.isSome then c.next else c
  if c.rest.head?.all fun (d : Code) => d == ' ' || isBreak d then
    return ({ chomping := ((first <|> second).getD .clip), indent }, ← c.pastLine?)
  else none

/-- Past blank lines, and the greatest column that spaces reach there. -/
def blockIndent (c : Cursor) (greatest : Nat) (seen : Text) : Text × Nat × Cursor :=
  match _h : c.rest with
  | [] => (seen, greatest, c)
  | d :: _ =>
    if d == ' ' then blockIndent c.next (max greatest c.next.column) seen
    else if isBreak d then blockIndent c.next greatest (seen ++ breakText d)
    else (seen, greatest, c)
termination_by c.rest.length
decreasing_by all_goals rw [Cursor.length_next _h, _h]; simp

/-- Past blank lines, with at most `indent` spaces before each line end. -/
def blockBreaks (indent : Nat) (c : Cursor) (seen : Text) : Text × Cursor :=
  match _h : c.rest with
  | [] => (seen, c)
  | d :: _ =>
    if d == ' ' && c.column < indent then blockBreaks indent c.next seen
    else if isBreak d then blockBreaks indent c.next (seen ++ breakText d)
    else (seen, c)
termination_by c.rest.length
decreasing_by all_goals rw [Cursor.length_next _h, _h]; simp

structure BlockText where
  text : Text
  /-- The end of the last line. -/
  lastBreak : Text
  /-- The blank lines after it. -/
  breaks : Text
  after : Cursor

/-- The lines of a block; `breaks` are the blank lines in front of the next. -/
def blockLines (folded : Bool) (indent : Nat) (c : Cursor) (seen lastBreak breaks : Text) : BlockText :=
  if c.column = indent && !c.rest.isEmpty then
    let line := c.rest.takeWhile fun (d : Code) => !isBreak d
    let ended := c.toBreak
    let lastBreak : Text := (ended.rest.head?.map breakText).getD []
    let (more, after) := blockBreaks indent ended.next []
    let seen := seen ++ breaks ++ line
    if after.column = indent && !after.rest.isEmpty && after.rest.length < c.rest.length then
      let indented (t : Text) : Bool := t.head?.any isSpace
      let glue : Text :=
        if folded && lastBreak == Text.ofString "\n" && !indented line && !indented after.rest then
          if more.isEmpty then " " else []
        else lastBreak
      blockLines folded indent after (seen ++ glue) lastBreak more
    else ⟨seen, lastBreak, more, after⟩
  else ⟨seen, lastBreak, breaks, c⟩
termination_by c.rest.length
decreasing_by simp_all

/-- A block scalar, from behind its mark on, inside a collection indented by `outer`. -/
def block? (folded : Bool) (outer : Option Nat) (c : Cursor) : Option Scanned := do
  let (header, c) ← blockHeader? c
  let least := max 1 ((outer.map (· + 1)).getD 0)
  let (breaks, indent, c) :=
    match header.indent with
    | some n =>
      let indent := least + n - 1
      let (breaks, c) := blockBreaks indent c []
      (breaks, indent, c)
    | none =>
      let (breaks, greatest, c) := blockIndent c 0 []
      (breaks, max least greatest, c)
  let b := blockLines folded indent c [] [] breaks
  let ending : Text :=
    match header.chomping with
    | .strip => []
    | .clip => b.lastBreak
    | .keep => b.lastBreak ++ b.breaks
  return ⟨b.text ++ ending, b.after, true⟩

end MessageCatalog.Yaml
