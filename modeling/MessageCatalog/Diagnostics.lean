/-
  MessageCatalog.Diagnostics — recoverable problems of one run.

  Recorded are rejected keys per file, files without a syntax tree, keys that were
  overwritten per plugin, skipped files, and reports. A summary gives counts and the
  first few of each; recording also logs.
-/

import MessageCatalog.Attempt
import MessageCatalog.Key
import MessageCatalog.Sample

namespace MessageCatalog

structure Skipped where
  file : Text
  reason : Text
  deriving DecidableEq, Repr

structure Diagnostics where
  sampleSize : Int := 5
  invalidKeys : Table Text (Distinct Text) := .empty
  fallbackFiles : Distinct Text := .empty
  overwrites : Table Text (List Text) := .empty
  skipped : List Skipped := []
  /-- Reports, each with the file it was met in. -/
  errors : List (Report × Option Text) := []

namespace Diagnostics

/-! ## Recording -/

def invalidKeyReport (file key : Text) : Report :=
  .make .invalidKey ("Key " ++ key.display ++ " does not match the key grammar")
    [("key", .text key), ("file_path", .text file)]

/-- Keys rejected in a file, those that are new for it. -/
def recordInvalidKeys (d : Diagnostics) (file : Text) (keys : List Text) : Logged Diagnostics :=
  if keys.isEmpty then return d
  else do
    let known := (d.invalidKeys.get? file).getD .empty
    let fresh := (Distinct.ofList keys).toList.filter fun k => !known.contains k
    Logged.logAll (fresh.map fun k => ⟨.debug, "Invalid key rejected", (invalidKeyReport file k).fields⟩)
    return { d with invalidKeys := d.invalidKeys.insert file (known.addAll keys) }

def recordFallback (d : Diagnostics) (file : Text) : Diagnostics :=
  { d with fallbackFiles := d.fallbackFiles.add file }

/-- Keys of a plugin whose text a file changed. -/
def recordOverwrite (d : Diagnostics) (plugin file : Text) (keys : List Text) : Logged Diagnostics :=
  if keys.isEmpty then return d
  else do
    Logged.log
      ⟨.warning, "Keys overwritten in plugin group",
        [("plugin", .text plugin), ("file", .text file), ("count", .int keys.length),
          ("sample", .ofTexts (sample d.sampleSize keys))]⟩
    return { d with overwrites := d.overwrites.alter plugin fun old => old.getD [] ++ keys }

def recordSkip (d : Diagnostics) (file reason : Text) : Logged Diagnostics := do
  Logged.log ⟨.warning, "Skipping file", [("file", .text file), ("reason", .text reason)]⟩
  return { d with skipped := d.skipped ++ [⟨file, reason⟩] }

def recordError (d : Diagnostics) (r : Report) (file : Option Text) : Logged Diagnostics := do
  Logged.log
    ⟨.warning, "Recoverable error recorded",
      [("error_type", .text r.kind.name), ("message", .text r.message), ("file", (file.map .text).getD .null)]⟩
  return { d with errors := d.errors ++ [(r, file)] }

/-! ## Summaries -/

def allInvalidKeys (d : Diagnostics) : List Text := d.invalidKeys.entries.flatMap (·.2.toList)

def invalidKeyCount (d : Diagnostics) : Nat := Table.total Distinct.size d.invalidKeys.entries

def allOverwrites (d : Diagnostics) : List Text :=
  d.overwrites.entries.flatMap fun e => e.2.map fun k => e.1 ++ ":" ++ k

def skippedFiles (d : Diagnostics) : List Text := d.skipped.map (·.file)

def errorMessages (d : Diagnostics) : List Text := d.errors.map (·.1.message)

structure Tally where
  count : Nat
  sample : List Text
  deriving DecidableEq, Repr

def tally (d : Diagnostics) (xs : List Text) : Tally := ⟨xs.length, sample d.sampleSize xs⟩

structure Summary where
  invalidKeys : Tally
  /-- The number of files with rejected keys. -/
  files : Nat
  fallbacks : Tally
  overwrites : Tally
  skipped : Tally
  errors : Tally
  deriving DecidableEq, Repr

def summary (d : Diagnostics) : Summary where
  invalidKeys := d.tally d.allInvalidKeys
  files := d.invalidKeys.size
  fallbacks := d.tally d.fallbackFiles.toList
  overwrites := d.tally d.allOverwrites
  skipped := d.tally d.skippedFiles
  errors := d.tally d.errorMessages

def Tally.toData (t : Tally) (more : List (Data × Data) := []) : Data :=
  .mapping ([(.text "count", .int t.count)] ++ more ++ [(.text "sample", .ofTexts t.sample)])

def Summary.toData (s : Summary) : Data :=
  .mapping [
    (.text "invalid_keys", s.invalidKeys.toData [(.text "files", .int s.files)]),
    (.text "fallbacks", s.fallbacks.toData), (.text "overwrites", s.overwrites.toData),
    (.text "skipped", s.skipped.toData), (.text "errors", s.errors.toData)]

def hasIssues (d : Diagnostics) : Bool :=
  !d.invalidKeys.isEmpty || !d.fallbackFiles.toList.isEmpty || !d.overwrites.isEmpty || !d.skipped.isEmpty ||
    !d.errors.isEmpty

end Diagnostics

end MessageCatalog
