/-
  MessageCatalog.Settings.Field — reading one setting.

  A setting may be given as a value of its type or as text that spells one. An integer is
  also a truth value, or a decimal without a fraction; a truth value is also 0 or 1, or
  one of the usual words in any case. A list of texts is nothing else.
-/

import MessageCatalog.Fault
import MessageCatalog.Text.Blank

namespace MessageCatalog.Settings

/-- White space around a number; the four information separators are none. -/
def isPadding (c : Code) : Bool := Text.isSpace c && !(28 ≤ c && c ≤ 31)

/-- Digits, with single underscores between them allowed. -/
def digits? (t : Text) : Option Text :=
  let parts := Text.splitOn '_' t
  if parts.all fun p => !p.isEmpty && p.all Text.isDigit then some parts.flatten else none

/-- An integer as text: a sign, digits, and a point with zeros may be there. -/
def integerOfText? (t : Text) : Option Int := do
  let t := Text.trimBy isPadding t
  let negative := Text.headIs '-' t
  let t := if negative || Text.headIs '+' t then t.tail else t
  let whole := t.takeWhile fun (c : Code) => c != '.'
  let fraction := (t.drop whole.length).drop 1
  let ds ← digits? whole
  if fraction.all fun (c : Code) => c == '0' then
    let n : Int := Text.digitValue ds
    return if negative then -n else n
  else none

def maxDigits : Nat := 4300

def readInteger : Data → Except Violation Int
  | .bool b => .ok (if b then 1 else 0)
  | .int n => .ok n
  | .float x =>
    match x.toInt? with
    | some n => .ok n
    | none => .error (if x.isFinite then .intFromFloat else .finiteNumber)
  | .text t =>
    match integerOfText? t with
    | some n => if t.countP Text.isDigit ≤ maxDigits then .ok n else .error .intParsingSize
    | none => .error .intParsing
  | _ => .error .intType

def trueWords : List Text := (["1", "true", "t", "yes", "y", "on"] : List String).map Text.ofString

def falseWords : List Text := (["0", "false", "f", "no", "n", "off"] : List String).map Text.ofString

def lowerAscii (t : Text) : Text := t.map fun (c : Code) => if Text.isUpper c then c + 32 else c

def readBool (d : Data) : Except Violation Bool :=
  match d with
  | .bool b => .ok b
  | .text t =>
    if trueWords.contains (lowerAscii t) then .ok true
    else if falseWords.contains (lowerAscii t) then .ok false
    else .error .boolParsing
  | .int _ | .float _ =>
    match d.integer? with
    | some n => if n = 1 then .ok true else if n = 0 then .ok false else .error .boolParsing
    | none => .error .boolType
  | _ => .error .boolType

/-! ## Lists -/

/-- Where something was refused, within the field, and why. -/
abbrev Refused := List (List Text × Violation)

def misplaced (place : Nat) : List Data → Refused
  | [] => []
  | .text _ :: ds => misplaced (place + 1) ds
  | _ :: ds => ([Text.ofNat place], .stringType) :: misplaced (place + 1) ds

def textsOf (ds : List Data) : List Text :=
  ds.filterMap fun d =>
    match d with
    | .text t => some t
    | _ => none

def readItems (ds : List Data) : Except Refused (List Text) :=
  match misplaced 0 ds with
  | [] => .ok (textsOf ds)
  | refused => .error refused

def readTexts : Data → Except Refused (List Text)
  | .list ds | .tuple ds => readItems ds
  | _ => .error [([], .listType)]

end MessageCatalog.Settings
