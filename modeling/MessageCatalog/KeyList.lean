/-
  MessageCatalog.KeyList — keys of any kind, once each, in order of first occurrence.

  What cannot be a key, a list or a mapping, is neither added nor asked for.
-/

import MessageCatalog.Fault

namespace MessageCatalog

abbrev KeyList := Distinct Data

namespace KeyList

def checked (k : Data) : Except Fault Data := if k.isHashable then .ok k else .error (.plain .wrongType)

def insert (s : KeyList) (k : Data) : Except Fault KeyList := (checked k).map s.add

/-- Adds the items of a list, or the characters of a text. -/
def insertAll (s : KeyList) (ks : Data) : Except Fault KeyList :=
  match ks.items? with
  | some xs => xs.foldlM insert s
  | none => .error (.plain .wrongType)

def has (s : KeyList) (k : Data) : Except Fault Bool := (checked k).map s.contains

def display (s : KeyList) : Text := "InvalidKeyList(" ++ (Data.list s.toList).display ++ ")"

end KeyList

end MessageCatalog
