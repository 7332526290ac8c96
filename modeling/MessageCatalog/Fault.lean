/-
  MessageCatalog.Fault — what goes wrong, and how it is reported.

  A `Fault` is a cause. Those of the library's own making have a `Report`: a kind, a
  message, a code and a context. Recoverable kinds are recorded while a run goes on;
  fatal ones end it.
-/

import MessageCatalog.Data

namespace MessageCatalog

/-! ## Reports -/

inductive ReportKind where
  | general
  | recoverable
  | fatal
  | invalidKey
  | parseFallback
  | scanLimit
  | literalTooLarge
  | configuration
  | roundTrip
  deriving DecidableEq, Repr

namespace ReportKind

def name : ReportKind → Text
  | .general => "KeySyncError"
  | .recoverable => "RecoverableError"
  | .fatal => "FatalError"
  | .invalidKey => "InvalidKeyError"
  | .parseFallback => "ParseFallbackError"
  | .scanLimit => "ScanLimitError"
  | .literalTooLarge => "LiteralTooLargeError"
  | .configuration => "ConfigurationError"
  | .roundTrip => "RoundTripError"

def all : List ReportKind :=
  [.general, .recoverable, .fatal, .invalidKey, .parseFallback, .scanLimit, .literalTooLarge, .configuration,
    .roundTrip]

def ofName? (name : Text) : Option ReportKind := all.find? (·.name == name)

def isFatal : ReportKind → Bool
  | .fatal | .configuration | .roundTrip => true
  | _ => false

def isRecoverable : ReportKind → Bool
  | .recoverable | .invalidKey | .parseFallback | .scanLimit | .literalTooLarge => true
  | _ => false

def isScanLimit : ReportKind → Bool
  | .scanLimit | .literalTooLarge => true
  | _ => false

/-- The fields of the context, for the kinds that lay it down. -/
def contextFields : ReportKind → Option (List Text)
  | .general | .recoverable | .fatal => none
  | .invalidKey => some ["key", "file_path"]
  | .parseFallback => some ["file_path"]
  | .scanLimit | .literalTooLarge => some ["limit", "actual"]
  | .configuration => some ["config_key"]
  | .roundTrip => some ["expected", "actual", "artifact_path"]

end ReportKind

structure Report where
  kind : ReportKind
  message : Text
  code : Text
  context : List (Text × Data)
  /-- The text of what went wrong before. -/
  previous : Option Text := none

namespace Report

/-- A report from named arguments: `error_code`, `context` where the kind leaves it open,
else the fields of its context. None if an argument is not one of them. An empty code
stands for the kind's name. -/
def ofArguments? (kind : ReportKind) (message : Text) (args : List (Text × Data)) (previous : Option Text) :
    Option Report :=
  let given (name : Text) : Option Data := (args.find? (·.1 == name)).map (·.2)
  let allowed : List Text := "error_code" :: kind.contextFields.getD ["context"]
  if args.all (fun a => allowed.contains a.1) then
    let code :=
      match given "error_code" with
      | some (.text (c :: r)) => c :: r
      | _ => kind.name
    let context :=
      match kind.contextFields with
      | some names => names.map fun n => (n, (given n).getD .null)
      | none =>
        match given "context" with
        | some (.mapping ps) => ps.map fun p => (p.1.toText, p.2)
        | _ => []
    some { kind, message, code, context, previous }
  else none

def make (kind : ReportKind) (message : Text) (context : List (Text × Data)) (previous : Option Text := none) :
    Report :=
  { kind, message, code := kind.name, context, previous }

def get (r : Report) (field : Text) : Data := ((r.context.find? (·.1 == field)).map (·.2)).getD .null

def fields (r : Report) : List (Text × Data) :=
  [("error_type", .text r.kind.name), ("message", .text r.message), ("error_code", .text r.code),
    ("context", .mapping (r.context.map fun e => (.text e.1, e.2))),
    ("previous_error", (r.previous.map .text).getD .null)]

end Report

/-! ## Faults -/

inductive Violation where
  | intParsing
  | intParsingSize
  | intFromFloat
  | finiteNumber
  | intType
  | greaterThanEqual
  | lessThanEqual
  | boolParsing
  | boolType
  | stringType
  | listType
  deriving DecidableEq, Repr

def Violation.name : Violation → Text
  | .intParsing => "int_parsing"
  | .intParsingSize => "int_parsing_size"
  | .intFromFloat => "int_from_float"
  | .finiteNumber => "finite_number"
  | .intType => "int_type"
  | .greaterThanEqual => "greater_than_equal"
  | .lessThanEqual => "less_than_equal"
  | .boolParsing => "bool_parsing"
  | .boolType => "bool_type"
  | .stringType => "string_type"
  | .listType => "list_type"

/-- What the data or the files at hand refuse. -/
inductive Cause where
  | wrongType
  | outOfRange
  | badValue
  | unknownKey
  | unknownAttribute
  | tooDeep
  | malformedJson
  | malformedYaml
  | undecodable
  | unencodable
  | missingFile
  | directory
  deriving DecidableEq, Repr

inductive Fault where
  /-- An operation the data does not allow, or a file that cannot be used. -/
  | plain (cause : Cause)
  /-- A value that cannot be used, and what is said of it. -/
  | badValue (said : Text)
  /-- A document whose root is not a mapping. -/
  | rootNotObject (file : Text)
  | literalTooLarge (limit actual : Nat)
  /-- A structure that is not written or not read again, and what is said of it. -/
  | unserializable (artifact : Option Text) (expected : Nat) (cause : Cause) (said : Text)
  | countMismatch (artifact : Option Text) (expected actual : Nat)
  | configMissing (file : Text)
  | configUnreadable (file : Text) (cause : Cause)
  | configNotMapping (file : Text)
  /-- Every refused setting: where it is, and why. -/
  | configInvalid (refused : List (List Text × Violation))

namespace Fault

def artifactName (artifact : Option Text) : Text :=
  match artifact with
  | some (c :: r) => c :: r
  | _ => "<memory>"

/-- The message, if it is of the library's own wording. -/
def message : Fault → Option Text
  | .plain _ => none
  | .badValue said => some said
  | .rootNotObject file => some ("Root element of " ++ file ++ " must be a JSON object")
  | .literalTooLarge _ actual => some ("Literal too large (" ++ Text.ofNat actual ++ " chars), not scanned")
  | .unserializable artifact _ _ said =>
    some ("Could not serialize reference structure for " ++ artifactName artifact ++ ": " ++ said)
  | .countMismatch artifact expected actual =>
    some ("Key count mismatch in " ++ artifactName artifact ++ ": expected " ++ Text.ofNat expected
      ++ " keys, reparsed has " ++ Text.ofNat actual ++ " keys")
  | .configMissing file => some ("Configuration file not found: " ++ file)
  | .configUnreadable file .directory =>
    some ("Could not read configuration file " ++ file ++ ": [Errno 21] Is a directory: " ++ file.display)
  | .configUnreadable _ _ => none
  | .configNotMapping file => some ("Configuration file " ++ file ++ " must contain a mapping")
  | .configInvalid _ => none

/-- The failure of the data or of a file that a report goes back to. Settings that are refused are
listed in the fault itself. -/
def cause? : Fault → Option Cause
  | .unserializable _ _ c _ => some c
  | .configMissing _ => some .missingFile
  | .configUnreadable _ c => some c
  | _ => none

def report? (f : Fault) : Option Report :=
  let text := f.message.getD []
  let path (artifact : Option Text) : Data := (artifact.map .text).getD .null
  match f with
  | .plain _ | .badValue _ | .rootNotObject _ => none
  | .literalTooLarge limit actual =>
    some (.make .literalTooLarge text [("limit", .int limit), ("actual", .int actual)])
  | .unserializable artifact expected _ _ =>
    some (.make .roundTrip text [("expected", .int expected), ("actual", .null), ("artifact_path", path artifact)])
  | .countMismatch artifact expected actual =>
    some (.make .roundTrip text
      [("expected", .int expected), ("actual", .int actual), ("artifact_path", path artifact)])
  | .configMissing _ | .configUnreadable _ _ | .configNotMapping _ =>
    some (.make .configuration text [("config_key", .text "config_file")])
  | .configInvalid refused =>
    let first : Data :=
      match refused with
      | ((part :: parts), _) :: _ => .text (Text.joinWith "." (part :: parts))
      | _ => .null
    some (.make .configuration text [("config_key", first)])

end Fault

end MessageCatalog
