/-
  MessageCatalog.Artifact.Store — the deployed artifacts of a directory.

  An artifact is a file named for its language. The reference language and the files that
  define the messages are no deployed languages. Files are visited in the order of their
  names; a later one of the same language replaces the earlier and keeps its place. A
  file that cannot be used has no effect beyond a log record, unless it is nested deeper
  than calls can be: then nothing is loaded.
-/

import MessageCatalog.Artifact.KeySet
import MessageCatalog.File
import MessageCatalog.Json.Read

namespace MessageCatalog.Artifact

/-! ## Names -/

inductive Format where
  | typeScript
  | json
  deriving DecidableEq, Repr

/-- Stem and suffix of a file name. A point in front or at the end starts no suffix. -/
def splitName (name : Text) : Text × Text :=
  let (stem, suffix) := Text.cutLast '.' name
  if stem.isEmpty || suffix.isEmpty then (name, []) else (stem, suffix)

def formatOf? (suffix : Text) : Option Format :=
  if suffix = "ts" then some .typeScript else if suffix = "json" then some .json else none

/-- Two or three small letters, and after `-` or `_` two to four letters if they follow. -/
def isLanguageCode (t : Text) : Bool :=
  let main := t.takeWhile Text.isLower
  let variant : Bool :=
    match t.drop main.length with
    | [] => true
    | c :: r => (c == '-' || c == '_') && 2 ≤ r.length && r.length ≤ 4 && r.all Text.isLetter
  2 ≤ main.length && main.length ≤ 3 && variant

def referenceStems : List Text := (["ref", "index"] : List String).map Text.ofString

def languageOf? (reference name : Text) : Option (Text × Format) := do
  let (language, suffix) := splitName name
  let format ← formatOf? suffix
  if language == reference || referenceStems.contains language || !isLanguageCode language then none
  else some (language, format)

/-! ## Reading -/

mutual

/-- Paths of the values that are no mappings, in order. -/
def flatPaths (base : Text) : Data → List Text
  | .mapping ps => flatPathsOfPairs base ps
  | _ => [base]

def flatPathsOfPairs (base : Text) : List (Data × Data) → List Text
  | [] => []
  | (k, v) :: ps =>
    flatPaths (if base.isEmpty then k.toText else base ++ "." ++ k.toText) v ++ flatPathsOfPairs base ps

end

/-- The keys of a table in JSON, which may be wrapped. -/
def jsonKeys (d : Data) : List Text :=
  match d with
  | .mapping ps =>
    match Data.get? ps (.text "translations") with
    | some (.mapping inner) => flatPathsOfPairs [] inner
    | _ => flatPathsOfPairs [] ps
  | _ => []

def failure (event : Text) (path : Text) (fields : List (Text × Data)) : Record :=
  ⟨.error, event, ("file", .text path) :: fields⟩

def keysOfText (host : Host) (limits : Limits) (path : Text) (format : Format) (t : Text) :
    Attempt (Option (List Text)) :=
  match format with
  | .json =>
    match Json.readOn host t with
    | .ok d => return some (jsonKeys d)
    | .error .tooDeep => throw (.plain .tooDeep)
    | .error _ => do
      Attempt.log (failure "Failed to parse artifact" path [])
      return none
  | .typeScript => do
    match ← Attempt.ofLogged (keySet limits t host).run with
    | .ok keys => return some keys
    | .error fault =>
      match fault.report? with
      | some r =>
        Attempt.log (failure "Artifact literal too large" path r.context)
        return none
      | none => throw fault

def readKeys (host : Host) (limits : Limits) (path : Text) (format : Format) (file : File) :
    Attempt (Option (List Text)) :=
  match File.readText (some file) with
  | .ok t => keysOfText host limits path format t
  | .error _ => do
    Attempt.log (failure "Failed to read artifact" path [])
    return none

/-! ## The store -/

structure Deployed where
  fileName : Text
  keys : List Text
  deriving DecidableEq, Repr

structure Store where
  languages : Table Text Deployed := .empty

namespace Store

def isAvailable (s : Store) (language : Text) : Bool := s.languages.contains language

def keySets (s : Store) : List (Text × List Text) := s.languages.entries.map fun e => (e.1, e.2.keys)

def paths (s : Store) : List (Text × Text) := s.languages.entries.map fun e => (e.1, e.2.fileName)

/-- Names in the order of their code points. -/
def nameLe (a b : Text × File) : Bool := ¬b.1 < a.1

def visit (host : Host) (limits : Limits) (reference directory : Text) (s : Store) (entry : Text × File) :
    Attempt Store := do
  match languageOf? reference entry.1 with
  | none => return s
  | some (language, format) =>
    let path := directory ++ "/" ++ entry.1
    match ← readKeys host limits path format entry.2 with
    | none => return s
    | some keys =>
      Attempt.log
        ⟨.info, "Loaded deployed artifact",
          [("language", .text language), ("file", .text path), ("keys", .int keys.length)]⟩
      return { languages := s.languages.insert language ⟨entry.1, keys⟩ }

/-- The store of a directory; none if there is no such directory. -/
def load (limits : Limits) (reference directory : Text) (files : Option (List (Text × File))) (host : Host := {}) :
    Attempt Store :=
  match files with
  | none => do
    Attempt.log ⟨.warning, "Translations directory not found", [("dir", .text directory)]⟩
    return {}
  | some files => (files.mergeSort nameLe).foldlM (visit host limits reference directory) {}

end Store

end MessageCatalog.Artifact
