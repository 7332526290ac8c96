/-
  MessageCatalog.Text.Utf8 — texts as octets.

  A code point is one to four octets, the fewest that hold it. Decoding refuses what
  encoding never writes: longer forms, surrogates, values past the last code point, and
  sequences cut short.
-/

import MessageCatalog.Text

namespace MessageCatalog.Text.Utf8

abbrev Octets := List UInt8

/-! ## Encoding -/

/-- A continuation octet with six bits of `n`. -/
def tail (n : Nat) : UInt8 := .ofNat (0x80 + n % 64)

def encodeCode (c : Code) : Octets :=
  if c < 0x80 then [.ofNat c]
  else if c < 0x800 then [.ofNat (0xC0 + c / 64), tail c]
  else if c < 0x10000 then [.ofNat (0xE0 + c / 4096), tail (c / 64), tail c]
  else [.ofNat (0xF0 + c / 262144), tail (c / 4096), tail (c / 64), tail c]

/-- None if the text holds what no octets stand for. -/
def encode (t : Text) : Option Octets := if t.isScalar then some (t.flatMap encodeCode) else none

/-! ## Decoding -/

inductive State where
  /-- Between code points; those read so far are held backwards. -/
  | ready (read : Text)
  /-- Inside a code point: octets still owed, the bits so far, and the least value that
  needs this many octets. -/
  | within (read : Text) (owed value least : Nat)
  | refused

def first (read : Text) (b : Nat) : State :=
  if b < 0x80 then .ready (b :: read)
  else if b < 0xC0 then .refused
  else if b < 0xE0 then .within read 1 (b - 0xC0) 0x80
  else if b < 0xF0 then .within read 2 (b - 0xE0) 0x800
  else if b < 0xF8 then .within read 3 (b - 0xF0) 0x10000
  else .refused

def State.step (s : State) (octet : UInt8) : State :=
  let b := octet.toNat
  match s with
  | .ready read => first read b
  | .refused => .refused
  | .within read owed value least =>
    if b < 0x80 || 0xC0 ≤ b then .refused
    else
      let v := value * 64 + (b - 0x80)
      if 1 < owed then .within read (owed - 1) v least
      else if least ≤ v && v < 0x110000 && !isSurrogate v then .ready (v :: read)
      else .refused

def decode (os : Octets) : Option Text :=
  match os.foldl State.step (.ready []) with
  | .ready read => some read.reverse
  | _ => none

end MessageCatalog.Text.Utf8
