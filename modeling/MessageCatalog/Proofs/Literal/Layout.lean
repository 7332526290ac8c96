/-
  MessageCatalog.Proofs.Literal.Layout — object literals in any layout.

  A well-formed literal is a tree: names, values, and the white space and comments
  between the tokens. `print` gives its source, `texts` the texts in it with the names
  that lead to them. Every piece carries what makes it well formed, so that nothing
  printed here is anything but a literal:
  - a string is closed by the first quote of its kind that no backslash precedes, has no
    line feed unless in backticks, no substitution, and no line continuation of two code
    points, which a reader of escapes and a reader that only skips would end differently;
  - any other value is balanced in its brackets, stays on its line outside of them, and
    has no slash outside of its strings;
  - an object has a name that denotes something: an empty one would leave no segment.
-/

import MessageCatalog.Literal.Flatten

namespace MessageCatalog.Literal.Source

/-! ## Between tokens -/

inductive Trivium where
  | blank (c : Code) (isBlank : isBlank c = true)
  /-- A comment up to the end of its line. -/
  | line (body : Text) (oneLine : ('\n' : Code) ∉ body)
  /-- A comment between `/*` and `*/`. -/
  | block (body : Text) (isOpen : Text.contains [('*' : Code), ('/' : Code)] body = false)

def Trivium.print : Trivium → Text
  | .blank c _ => [c]
  | .line body _ => ('/' : Code) :: ('/' : Code) :: (body ++ [('\n' : Code)])
  | .block body _ => ('/' : Code) :: ('*' : Code) :: (body ++ [('*' : Code), ('/' : Code)])

def Trivium.space : Trivium := .blank ' ' rfl

def Trivium.newline : Trivium := .blank '\n' rfl

abbrev Gap := List Trivium

def Gap.print (g : Gap) : Text := g.flatMap Trivium.print

/-! ## Strings -/

/-- Whether a string opened by `q` ends right behind this body, for whoever reads or
skips it. -/
def isPlain (q : Code) : Text → Bool
  | [] => true
  | c :: r =>
    if c == '\\' then
      match r with
      | [] => false
      | d :: s => !(d == '\r' && Text.headIs '\n' s) && isPlain q s
    else
      c != q && (q == '`' || c != '\n') && !(q == '`' && c == '$' && Text.headIs '{' r) && isPlain q r

/-- What the body of a string denotes: itself, escapes decoded. -/
def decode (t : Text) : Text :=
  match t with
  | [] => []
  | c :: r => if c == '\\' then (escape r).1 ++ decode (r.drop (escape r).2) else c :: decode r
termination_by t.length
decreasing_by all_goals simp; try omega

structure Quoted where
  quote : Code
  body : Text
  isQuote : isQuote quote = true
  isPlain : isPlain quote body = true

namespace Quoted

theorem isQuote_single : Literal.isQuote '\'' = true := rfl

theorem isQuote_double : Literal.isQuote '"' = true := rfl

theorem isQuote_template : Literal.isQuote '`' = true := rfl

def single (body : Text) (isPlain : Source.isPlain '\'' body = true) : Quoted := ⟨'\'', body, rfl, isPlain⟩

def print (s : Quoted) : Text := s.quote :: (s.body ++ [s.quote])

def denoted (s : Quoted) : Text := decode s.body

end Quoted

/-! ## Names -/

inductive Name where
  | bare (c : Code) (r : Text) (starts : Key.startsSegment c = true)
    (continues : r.all Key.continuesSegment = true)
  | quoted (s : Quoted) (isNameQuote : isNameQuote s.quote = true)

namespace Name

def print : Name → Text
  | .bare c r _ _ => c :: r
  | .quoted s _ => s.print

def denoted : Name → Text
  | .bare c r _ _ => c :: r
  | .quoted s _ => s.denoted

/-- The code points a limit on names counts: those of the name, without its quotes. -/
def written : Name → Text
  | .bare c r _ _ => c :: r
  | .quoted s _ => s.body

end Name

/-! ## Values that are no texts -/

inductive Bracket where
  | round
  | square
  | curly
  deriving DecidableEq, Repr

namespace Bracket

def opening : Bracket → Code
  | .round => '('
  | .square => '['
  | .curly => '{'

def closing : Bracket → Code
  | .round => ')'
  | .square => ']'
  | .curly => '}'

def all : List Bracket := [.round, .square, .curly]

end Bracket

/-- A code point that is no quote, no bracket and no slash. -/
def isOrdinary (c : Code) : Bool :=
  !isQuote c && c != '/' && Bracket.all.all fun b => c != b.opening && c != b.closing

/-- Source with balanced brackets. -/
inductive Pieces where
  | none
  | code (c : Code) (ordinary : isOrdinary c = true) (rest : Pieces)
  | string (s : Quoted) (rest : Pieces)
  | group (b : Bracket) (inside rest : Pieces)

namespace Pieces

def print : Pieces → Text
  | .none => []
  | .code c _ rest => c :: rest.print
  | .string s rest => s.print ++ rest.print
  | .group b inside rest => b.opening :: (inside.print ++ b.closing :: rest.print)

/-- No comma and no line feed outside brackets and strings. -/
def isUndivided : Pieces → Bool
  | .none => true
  | .code c _ rest => c != ',' && c != '\n' && rest.isUndivided
  | .string _ rest | .group _ _ rest => rest.isUndivided

/-- Starts with something, and neither with white space, a string nor an object. -/
def startsOther : Pieces → Bool
  | .code c _ _ => !isBlank c
  | .group b _ _ => b != .curly
  | .none | .string _ _ => false

end Pieces

structure Expression where
  pieces : Pieces
  isUndivided : pieces.isUndivided = true
  startsOther : pieces.startsOther = true

def Expression.print (e : Expression) : Text := e.pieces.print

/-! ## Members -/

/-- A string that is added to those before it, and what stands around the plus sign. -/
structure Summand where
  before : Gap
  after : Gap
  string : Quoted

def Summand.print (s : Summand) : Text := s.before.print ++ ('+' : Code) :: (s.after.print ++ s.string.print)

inductive Leaf where
  | text (first : Quoted) (more : List Summand)
  | other (e : Expression)

namespace Leaf

def print : Leaf → Text
  | .text first more => first.print ++ more.flatMap Summand.print
  | .other e => e.print

/-- The text that the value is, if it is one. -/
def denoted? : Leaf → Option Text
  | .text first more => some (first.denoted ++ more.flatMap (·.string.denoted))
  | .other _ => none

end Leaf

structure Head where
  before : Gap
  name : Name
  beforeColon : Gap
  afterColon : Gap

def Head.print (h : Head) : Text :=
  h.before.print ++ (h.name.print ++ (h.beforeColon.print ++ (':' : Code) :: h.afterColon.print))

mutual

/-- What stands between the braces of an object, from some member on. -/
inductive Members where
  | done (gap : Gap)
  | leaf (head : Head) (value : Leaf) (tail : Tail)
  | object (head : Head) (isNamed : head.name.denoted ≠ []) (inner : Members) (tail : Tail)

inductive Tail where
  | last (gap : Gap)
  | comma (gap : Gap) (rest : Members)

end

mutual

def Members.print : Members → Text
  | .done gap => gap.print
  | .leaf head value tail => head.print ++ (value.print ++ tail.print)
  | .object head _ inner tail => head.print ++ ('{' : Code) :: (inner.print ++ ('}' : Code) :: tail.print)

def Tail.print : Tail → Text
  | .last gap => gap.print
  | .comma gap rest => gap.print ++ (',' : Code) :: rest.print

end

/-! ## Meaning -/

/-- A text in a literal, below the names that lead to it. -/
structure Entry where
  path : List Text
  value : Text
  deriving DecidableEq, Repr

mutual

/-- The texts in the order of the source; `above` leads to the object. -/
def Members.texts (above : List Text) : Members → List Entry
  | .done _ => []
  | .leaf head value tail =>
    (value.denoted?.map fun v => ⟨above ++ [head.name.denoted], v⟩).toList ++ tail.texts above
  | .object head _ inner tail => inner.texts (above ++ [head.name.denoted]) ++ tail.texts above

def Tail.texts (above : List Text) : Tail → List Entry
  | .last _ => []
  | .comma _ rest => rest.texts above

end

/-- Keys and texts below `base`, of all objects that are not too deep. -/
def keyed (limits : Limits) (base : Text) (es : List Entry) : List (Text × Text) :=
  (es.filter fun e => e.path.length ≤ limits.maxDepth + 1).map fun e =>
    (Key.under base (Text.joinWith "." e.path), e.value)

/-- Keys and texts sorted by the grammar: the valid keys with the last text of each, and
the keys that are not valid. -/
def tabulate (es : List (Text × Text)) : Flattened where
  entries := .ofList (es.filter fun e => Key.isValid e.1)
  rejected := .ofList ((es.filter fun e => !Key.isValid e.1).map (·.1))

/-! ## Limits -/

/-- A sum is measured by what it denotes, each of its strings by what is written. -/
def Leaf.fits (limits : Limits) : Leaf → Bool
  | .text first more =>
    (first :: more.map (·.string)).all (fun s => s.body.length < limits.maxValueLength) &&
      (first.denoted ++ more.flatMap (·.string.denoted)).length ≤ limits.maxValueLength
  | .other e => e.print.length ≤ limits.maxValueLength

def Head.fits (limits : Limits) (h : Head) : Bool := h.name.written.length ≤ limits.maxKeyLength

mutual

def Members.fits (limits : Limits) : Members → Bool
  | .done _ => true
  | .leaf head value tail => head.fits limits && value.fits limits && tail.fits limits
  | .object head _ inner tail => head.fits limits && inner.fits limits && tail.fits limits

def Tail.fits (limits : Limits) : Tail → Bool
  | .last _ => true
  | .comma _ rest => rest.fits limits

end

end MessageCatalog.Literal.Source
