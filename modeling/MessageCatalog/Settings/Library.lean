/-
  MessageCatalog.Settings.Library — what the settings leave to the library that validates
  them.

  It finds the value of a field among those of a call, reads the variables of the
  environment and turns values into integers, truth values and lists of texts. Names that
  start with an underscore are options of the call; the prefix of the variables is one.
-/

import MessageCatalog.Settings.Field
import MessageCatalog.Text.LowerCase

namespace MessageCatalog.Settings

abbrev Source := List (Text × Data)

namespace Source

/-- The entries whose name, in lower case, is `name`. -/
def spelled (s : Source) (name : Text) : Source := s.filter fun e => Text.lower e.1 == name

/-- The value under a name: as it is written, else the last in another case. -/
def pick? (s : Source) (name : Text) : Option Data :=
  match s.find? (·.1 == name) with
  | some e => some e.2
  | none => ((s.spelled name).getLast?).map (·.2)

def isOption (name : Text) : Bool := Text.headIs '_' name

def options (s : Source) : Source := s.filter fun e => isOption e.1

end Source

def variablePrefix : Text := "KEYSYNC_"

/-- The variable of a field, in any case; of several the last. -/
def environmentValue? (start : Text) (environment : List (Text × Text)) (name : Text) : Option Data :=
  (environment.reverse.find? fun e => Text.lower e.1 == Text.lower (start ++ name)).map fun e => .text e.2

def readVariables (options : Source) (environment : List (Text × Text)) : Except Fault (Text → Option Data) :=
  match options.find? (·.1 == Text.ofString "_env_prefix") with
  | none | some (_, .null) => .ok (environmentValue? variablePrefix environment)
  | some (_, .text start) => .ok (environmentValue? start environment)
  | some _ => .error (.plain .wrongType)

structure Library where
  pick : Source → Text → Option Data := Source.pick?
  fromEnvironment : Source → List (Text × Text) → Except Fault (Text → Option Data) := readVariables
  integer : Data → Except Violation Int := readInteger
  truth : Data → Except Violation Bool := readBool
  texts : Data → Except Refused (List Text) := readTexts

/-- What the library promises. Which of several spellings of a name it takes is not said, nor
how it turns values into others. -/
structure Library.Documented (library : Library) : Prop where
  /-- Names are accepted in any case. -/
  pick : ∀ (s : Source) (name : Text), Text.lower name = name → (s.spelled name).length ≤ 1 →
    library.pick s name = ((s.spelled name).head?).map (·.2)
  fromEnvironment : ∀ environment,
    library.fromEnvironment [] environment = .ok (environmentValue? variablePrefix environment)
  /-- A list of texts is taken as it is, -/
  texts_list : ∀ ts, library.texts (.ofTexts ts) = .ok ts
  /-- and nothing else is, but for a tuple. -/
  texts_ok : ∀ d ts, library.texts d = .ok ts → d = .ofTexts ts ∨ d = .tuple (ts.map .text)
  /-- A refusal says what was refused. -/
  texts_error : ∀ d, library.texts d ≠ .error []

end MessageCatalog.Settings
