/-
  MessageCatalog.Yaml.Implicit — what an unquoted scalar means.

  The words of YAML 1.1 are null and truth values; numbers may have underscores, be
  binary, octal or hexadecimal, or counted in sixties. Dates and times have no use here, but
  have to be possible ones. All else is text.
-/

import MessageCatalog.Fault
import MessageCatalog.Host
import MessageCatalog.Text.LowerCase

namespace MessageCatalog.Yaml

inductive Node where
  | data (d : Data)
  /-- A value of a kind that has no use here: a date, a set, binary data. -/
  | other
  /-- The key `<<`, whose value is merged into the mapping. -/
  | merge
  /-- The text `=`, which is a key only. -/
  | equals
  /-- What has the form of a value but cannot be one. -/
  | refused (fault : Fault)
  deriving Inhabited

def text (t : Text) : Node := .data (.text t)

def Node.ofExcept {α : Type} (f : α → Node) : Except Fault α → Node
  | .ok a => f a
  | .error fault => .refused fault

def words (ws : List String) (t : Text) : Bool := ws.any fun w => Text.ofString w == t

def isNull : Text → Bool := words ["", "~", "null", "Null", "NULL"]

def isTrue : Text → Bool := words ["yes", "Yes", "YES", "true", "True", "TRUE", "on", "On", "ON"]

def isFalse : Text → Bool := words ["no", "No", "NO", "false", "False", "FALSE", "off", "Off", "OFF"]

/-! ## Numbers -/

def dropUnderscores (t : Text) : Text := t.filter fun (c : Code) => c != '_'

/-- A non-empty text of underscores and characters that pass `p`. -/
def consists (p : Code → Bool) (t : Text) : Bool := !t.isEmpty && t.all fun (c : Code) => p c || c == '_'

def isDigits (t : Text) : Bool := t.head?.any Text.isDigit && consists Text.isDigit t

def valueIn (base : Nat) (t : Text) : Nat :=
  (dropUnderscores t).foldl (fun n c => n * base + Text.hexDigit c) 0

def noInteger (base : Nat) (t : Text) : Fault :=
  .badValue ("invalid literal for int() with base " ++ Text.ofNat base ++ ": " ++ t.display)

/-- The value of digits. There may be none but underscores, and of decimal ones too many. -/
def readDigits (host : Host) (base : Nat) (t : Text) : Except Fault Nat :=
  let ds := dropUnderscores t
  if ds.isEmpty then .error (noInteger base [])
  else if base = 10 && host.maxDigits.any (· < ds.length) then .error (.badValue (host.longInteger (some ds.length)))
  else .ok (valueIn base ds)

/-- One or two digits below sixty. -/
def isSixtieth (t : Text) : Bool :=
  t.all Text.isDigit && match t with
    | [_] => true
    | [d, _] => d ≤ '5'.toNat
    | _ => false

/-- A number counted in sixties: its leading part, and those behind colons. -/
def sixties? (t : Text) : Option (Text × List Nat) :=
  match Text.splitOn ':' t with
  | first :: p :: ps =>
    if isDigits first && (p :: ps).all isSixtieth then some (first, (p :: ps).map (valueIn 10)) else none
  | _ => none

def inSixties (first : Nat) (parts : List Nat) : Nat := parts.foldl (fun n d => n * 60 + d) first

def signed (t : Text) : Bool × Text :=
  let negative := Text.headIs '-' t
  (negative, if negative || Text.headIs '+' t then t.tail else t)

def isOctal (c : Code) : Bool := '0'.toNat ≤ c && c ≤ '7'.toNat

def isBinary (c : Code) : Bool := c == '0' || c == '1'

/-- A number without a sign, if the text has the form of one. -/
def natural? (host : Host) (t : Text) : Option (Except Fault Nat) :=
  match t with
  | z :: r =>
    if z == '0' then
      match r with
      | [] => some (.ok 0)
      | x :: ds =>
        if x == 'b' && consists isBinary ds then some (readDigits host 2 ds)
        else if x == 'x' && consists Text.isHexDigit ds then some (readDigits host 16 ds)
        else if consists isOctal r then some (readDigits host 8 t)
        else none
    else if isDigits t then some (readDigits host 10 t)
    else (sixties? t).map fun (first, parts) => (readDigits host 10 first).map fun n => inSixties n parts
  | [] => none

def integer? (host : Host) (t : Text) : Option (Except Fault Int) :=
  let (negative, t) := signed t
  (natural? host t).map fun x => x.map fun n => if negative then -(n : Int) else n

/-- An exponent, which has to have a sign; or nothing. -/
def isExponent (t : Text) : Bool :=
  match t with
  | [] => true
  | e :: s :: ds => (e == 'e' || e == 'E') && (s == '+' || s == '-') && !ds.isEmpty && ds.all Text.isDigit
  | _ => false

/-- Digits with a point among them or behind, and an exponent; without digits in front of
the point there has to be one behind it. -/
def isDecimal (whole fraction : Text) : Bool :=
  let digits := fraction.takeWhile fun (c : Code) => Text.isDigit c || c == '_'
  isExponent (fraction.drop digits.length) && (isDigits whole || (whole.isEmpty && isDigits digits))

def decimal? (negative : Bool) (t : Text) : Option Binary64 :=
  let whole := t.takeWhile fun (c : Code) => c != '.'
  match t.drop whole.length with
  | [] => none
  | _ :: fraction =>
    if isDecimal whole fraction then
      (Binary64.decimal? (dropUnderscores t)).map fun (n, e) => Binary64.ofDecimal negative n e
    else
      (sixties? whole).bind fun (first, parts) =>
        if fraction.all fun (c : Code) => Text.isDigit c || c == '_' then
          let ds := dropUnderscores fraction
          let n := inSixties (valueIn 10 first) parts
          some (Binary64.ofDecimal negative (n * Nat.pow 10 ds.length + Text.digitValue ds) (-ds.length))
        else none

def float? (t : Text) : Option Binary64 :=
  let (negative, s) := signed t
  if words [".inf", ".Inf", ".INF"] s then some (.infinite negative)
  else if words [".nan", ".NaN", ".NAN"] t then some .nan
  else if s.length < t.length && Text.headIs '.' s then none
  else decimal? negative s

/-! ## Dates -/

structure Clock where
  hour : Nat
  minute : Nat
  second : Nat
  /-- The distance to universal time in minutes, if it is given. -/
  offset : Option Int := none

structure Moment where
  year : Nat
  month : Nat
  day : Nat
  clock : Option Clock := none

def number? (least most : Nat) (t : Text) : Option (Nat × Text) :=
  let ds := (t.take most).takeWhile Text.isDigit
  if least ≤ ds.length then some (Text.digitValue ds, t.drop ds.length) else none

def pastMark? (c : Char) (t : Text) : Option Text := Text.dropStart? [c.toNat] t

def isSpacing (c : Code) : Bool := c == ' ' || c == '\t'

def zone? (t : Text) : Option (Option Int) := do
  let t := t.dropWhile isSpacing
  if t.isEmpty then return none
  else if t == Text.ofString "Z" then return some 0
  else if Text.headIs '+' t || Text.headIs '-' t then
    let (hours, r) ← number? 1 2 t.tail
    let (minutes, r) ← if r.isEmpty then some (0, r) else (pastMark? ':' r).bind (number? 2 2)
    let offset : Int := (hours * 60 + minutes : Nat)
    if r.isEmpty then return some (if Text.headIs '-' t then -offset else offset) else none
  else none

/-- A time of day after the date, with a fraction and a zone if they follow. -/
def clock? (t : Text) : Option Clock := do
  let spaces := t.takeWhile isSpacing
  let r ← if !spaces.isEmpty then some (t.drop spaces.length) else pastMark? 'T' t <|> pastMark? 't' t
  let (hour, r) ← number? 1 2 r
  let (minute, r) ← number? 2 2 (← pastMark? ':' r)
  let (second, r) ← number? 2 2 (← pastMark? ':' r)
  let r := if Text.headIs '.' r then r.tail.dropWhile Text.isDigit else r
  if r.all isSpacing && !r.isEmpty then none else return { hour, minute, second, offset := ← zone? r }

/-- A date with two digits for month and day, or a date and a time. -/
def moment? (t : Text) : Option Moment := do
  let (year, r) ← number? 4 4 t
  let (month, afterMonth) ← number? 1 2 (← pastMark? '-' r)
  let (day, afterDay) ← number? 1 2 (← pastMark? '-' afterMonth)
  if afterDay.isEmpty then
    if t.length = 10 then return { year, month, day } else none
  else return { year, month, day, clock := some (← clock? afterDay) }

def isLeap (year : Nat) : Bool := year % 4 = 0 && (year % 100 != 0 || year % 400 = 0)

def daysIn (year month : Nat) : Nat :=
  if month = 2 then if isLeap year then 29 else 28
  else if [4, 6, 9, 11].contains month then 30
  else 31

/-- An offset as messages show it: whole days, and the seconds of the day that is left. -/
def displayOffset (minutes : Int) : Text :=
  let seconds := minutes % 1440 * 60
  let rest : Text := if seconds = 0 then [] else ", seconds=" ++ Text.ofInt seconds
  "datetime.timedelta(days=" ++ Text.ofInt (minutes / 1440) ++ rest ++ ")"

def Clock.problem? (c : Clock) : Option Text :=
  if 23 < c.hour then some "hour must be in 0..23"
  else if 59 < c.minute then some "minute must be in 0..59"
  else if 59 < c.second then some "second must be in 0..59"
  else none

/-- Why there is no such moment. The offset is looked at first. -/
def Moment.problem? (m : Moment) : Option Text :=
  let offset := (m.clock.bind (·.offset)).getD 0
  if 1440 ≤ offset.natAbs then
    some ("offset must be a timedelta strictly between -timedelta(hours=24) and timedelta(hours=24), not "
      ++ displayOffset offset ++ ".")
  else if m.year = 0 then some "year 0 is out of range"
  else if m.month = 0 || 12 < m.month then some "month must be in 1..12"
  else if m.day = 0 || daysIn m.year m.month < m.day then some "day is out of range for month"
  else m.clock.bind Clock.problem?

def Moment.toNode (m : Moment) : Node :=
  match m.problem? with
  | none => .other
  | some said => .refused (.badValue said)

/-! ## Scalars -/

def ofPlain (host : Host) (t : Text) : Node :=
  if isNull t then .data .null
  else if isTrue t then .data (.bool true)
  else if isFalse t then .data (.bool false)
  else if t == Text.ofString "<<" then .merge
  else if t == Text.ofString "=" then .equals
  else
    match integer? host t, float? t, moment? t with
    | some x, _, _ => .ofExcept (fun n => .data (.int n)) x
    | none, some x, _ => .data (.float x)
    | none, none, some m => m.toNode
    | none, none, none => text t

def ofTagged (host : Host) (kind t : Text) : Node :=
  if words ["str"] kind then text t
  else if words ["null"] kind then .data .null
  else if words ["bool"] kind then
    if words ["yes", "true", "on"] (Text.lower t) then .data (.bool true)
    else if words ["no", "false", "off"] (Text.lower t) then .data (.bool false)
    else .refused (.plain .unknownKey)
  else if words ["int"] kind then
    match integer? host t with
    | some x => .ofExcept (fun n => .data (.int n)) x
    | none => .refused (if t.isEmpty then .plain .outOfRange else noInteger 10 t)
  else if words ["float"] kind then
    match float? t, integer? { host with maxDigits := none } t with
    | some x, _ => .data (.float x)
    | none, some (.ok n) => .data (.float (Binary64.ofDecimal (n < 0) n.natAbs 0))
    | none, _ =>
      .refused (if t.isEmpty then .plain .outOfRange
        else .badValue ("could not convert string to float: " ++ t.display))
  else if words ["timestamp"] kind then
    match moment? t with
    | some m => m.toNode
    | none => .refused (.plain .unknownAttribute)
  else if words ["binary"] kind then .other
  else .refused (.plain .malformedYaml)

end MessageCatalog.Yaml
