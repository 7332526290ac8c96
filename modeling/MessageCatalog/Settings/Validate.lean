/-
  MessageCatalog.Settings.Validate — settings from values.

  Every field is read by itself. If any is refused, all that are refused are reported, in
  the order in which the settings are declared.
-/

import MessageCatalog.Distinct
import MessageCatalog.Limits
import MessageCatalog.Settings.Library

namespace MessageCatalog

structure Settings where
  /-- How deep literals are read, 1 to 100. -/
  maxDepth : Nat := 10
  maxContentLength : Nat := 1048576
  maxKeyLength : Nat := 500
  maxValueLength : Nat := 5000
  /-- The languages every plugin is to have. -/
  languages : List Text := (["de", "es", "fr", "it", "ja"] : List String).map Text.ofString
  /-- How many items of a list a summary shows. -/
  sampleSize : Nat := 5
  /-- How many files are read at a time, 1 to 64. -/
  workers : Nat := 1
  debug : Bool := false
  logJson : Bool := true
  deriving DecidableEq, Repr

namespace Settings

def limits (s : Settings) : Limits where
  maxDepth := s.maxDepth
  maxContentLength := s.maxContentLength
  maxKeyLength := s.maxKeyLength
  maxValueLength := s.maxValueLength

/-! ## Languages -/

def splitLanguages (t : Text) : List Text := ((Text.splitOn ',' t).map Text.trim).filter fun t => !t.isEmpty

/-- Trimmed, without blank ones and repetitions. -/
def normalize (ts : List Text) : List Text := dedup ((ts.map Text.trim).filter fun t => !t.isEmpty)

/-- A text with commas, as the list it stands for. -/
def listed : Data → Data
  | .text t => .ofTexts (splitLanguages t)
  | d => d

def readLanguages (library : Library) (d : Data) : Except Refused (List Text) :=
  (library.texts (listed d)).map normalize

/-! ## Fields -/

def readBounded (library : Library) (least : Int) (most : Option Int) (d : Data) : Except Violation Int := do
  let n ← library.integer d
  if n < least then .error .greaterThanEqual
  else if most.any (· < n) then .error .lessThanEqual
  else .ok n

/-- What a field is set to, and what was refused of it. -/
structure Checked (α : Type) where
  value : α
  refused : Refused := []

def check {α : Type} (given : Text → Option Data) (name : Text) (default : α) (read : Data → Except Refused α) :
    Checked α :=
  match given name with
  | none => ⟨default, []⟩
  | some d =>
    match read d with
    | .ok a => ⟨a, []⟩
    | .error refused => ⟨default, refused.map fun r => (name :: r.1, r.2)⟩

def whole {α : Type} (x : Except Violation α) : Except Refused α := x.mapError fun v => [([], v)]

def checkNat (library : Library) (given : Text → Option Data) (name : Text) (default : Nat) (most : Option Int) :
    Checked Nat :=
  check given name default fun d => whole ((readBounded library 1 most d).map Int.toNat)

def validate (library : Library) (given : Text → Option Data) : Except Fault Settings :=
  let initial : Settings := {}
  let maxDepth := checkNat library given "max_depth" initial.maxDepth (some 100)
  let maxContentLength := checkNat library given "max_content_length" initial.maxContentLength none
  let maxKeyLength := checkNat library given "max_key_length" initial.maxKeyLength none
  let maxValueLength := checkNat library given "max_value_length" initial.maxValueLength none
  let languages := check given "languages" initial.languages (readLanguages library)
  let sampleSize := checkNat library given "sample_size" initial.sampleSize none
  let workers := checkNat library given "workers" initial.workers (some 64)
  let debug := check given "debug" initial.debug fun d => whole (library.truth d)
  let logJson := check given "log_json" initial.logJson fun d => whole (library.truth d)
  match maxDepth.refused ++ maxContentLength.refused ++ maxKeyLength.refused ++ maxValueLength.refused
      ++ languages.refused ++ sampleSize.refused ++ workers.refused ++ debug.refused ++ logJson.refused with
  | [] =>
    .ok
      { maxDepth := maxDepth.value, maxContentLength := maxContentLength.value, maxKeyLength := maxKeyLength.value
        maxValueLength := maxValueLength.value, languages := languages.value, sampleSize := sampleSize.value
        workers := workers.value, debug := debug.value, logJson := logJson.value }
  | refused => .error (.configInvalid refused)

/-- The settings from the values of a call, and from the variables for what is not among them. -/
def ofSource (s : Source) (environment : List (Text × Text)) (library : Library := {}) : Except Fault Settings := do
  let found ← library.fromEnvironment s.options environment
  validate library fun name => (library.pick s name).or (found name)

end Settings

end MessageCatalog
