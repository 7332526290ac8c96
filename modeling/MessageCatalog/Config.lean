/-
  MessageCatalog.Config — settings from a configuration file, the environment and explicit
  values.

  The file is a YAML mapping from names to values; no document is none. Its names have to
  be text, or nothing can be built from it. Explicit values are written over those of the
  file with the same names, before any name is looked at.
-/

import MessageCatalog.Attempt
import MessageCatalog.Data.Order
import MessageCatalog.File
import MessageCatalog.Settings.Validate
import MessageCatalog.Yaml.Read

namespace MessageCatalog.Config

/-- The libraries that a configuration goes through: one validates settings, the other reads
the file. -/
structure Library extends Settings.Library where
  document : Text → Except Fault Yaml.Node := (Yaml.read ·)
  /-- Whether the text in front of octets that are none is refused before these are come to.
  A file is decoded block by block while it is read. -/
  refusesFront : Text.Utf8.Octets → Bool := fun _ => false

/-- Whether a file is given up on before octets that are no text. -/
def refusesFront (library : Library) (file : Option File) : Bool :=
  match file with
  | some (.octets content) => library.refusesFront content
  | _ => false

def readFault (library : Library) (path : Text) (file : Option File) : Cause → Fault
  | .missingFile => .configMissing path
  | .directory => .configUnreadable path .directory
  | cause => if refusesFront library file then .configUnreadable path .malformedYaml else .plain cause

def entries (library : Library) (path t : Text) : Except Fault (List (Data × Data)) :=
  match library.document t with
  | .error (.plain .malformedYaml) => .error (.configUnreadable path .malformedYaml)
  | .error fault => .error fault
  | .ok (.data .null) => .ok []
  | .ok (.data (.mapping ps)) => .ok ps
  | .ok _ => .error (.configNotMapping path)

/-- Names as text; a value under any other name cannot be used. -/
def named (ps : List (Data × Data)) : Except Fault Settings.Source :=
  ps.mapM fun p =>
    match p.1 with
    | .text name => .ok (name, p.2)
    | _ => .error (.plain .wrongType)

def readFile (library : Library) (path : Text) (file : Option File) : Attempt Settings.Source := do
  let t ← Attempt.ofExcept ((File.readText file).mapError (readFault library path file))
  let ps ← Attempt.ofExcept (entries library path t)
  match Data.sorted? (ps.map (·.1)) with
  | some keys => Attempt.log ⟨.info, "Loaded configuration file", [("file", .text path), ("keys", .list keys)]⟩
  | none => throw (.plain .wrongType)
  Attempt.ofExcept (named ps)

def fileValues (library : Library) (path : Text) (file : Option (Option File)) : Attempt Settings.Source :=
  match file with
  | some f => readFile library path f
  | none => pure []

/-- The values of a file with explicit ones written over them. -/
def merge (values overrides : Settings.Source) : Settings.Source := (Table.ofList (values ++ overrides)).entries

/-- The settings. `file` is what a configuration file's path leads to, if one is named. -/
def load (path : Text) (file : Option (Option File)) (environment : List (Text × Text))
    (overrides : Settings.Source) (library : Library := {}) : Attempt Settings := do
  let values ← fileValues library path file
  Attempt.ofExcept (Settings.ofSource (merge values overrides) environment library.toLibrary)

end MessageCatalog.Config
