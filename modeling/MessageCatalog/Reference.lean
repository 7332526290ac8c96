/-
  MessageCatalog.Reference — the reference tables of a batch of sources.

  Every source is extracted by itself; the results are then merged in the order of the
  sources, so that the last file wins whatever the number of workers.
-/

import MessageCatalog.Extraction.Extract
import MessageCatalog.GroupTable
import MessageCatalog.Settings.Validate

namespace MessageCatalog

open Extraction (Extracted)

structure Source where
  path : Text
  text : Text
  deriving DecidableEq, Repr

structure Reference where
  table : GroupTable
  results : List Extracted

namespace Reference

def extractAll (limits : Limits) (sources : List Source) (parser : TypeScript.Parser := TypeScript.parse) :
    Logged (List Extracted) :=
  sources.mapM fun s => Extraction.extract limits s.path s.text parser

def add (t : GroupTable) (x : Extracted) : Logged GroupTable := do
  let diagnostics ← t.diagnostics.recordInvalidKeys x.file x.rejected
  let diagnostics := if x.usedFallback then diagnostics.recordFallback x.file else diagnostics
  return (← GroupTable.merge { t with diagnostics } x).1

def mergeAll (sampleSize : Int) (results : List Extracted) : Logged GroupTable :=
  results.foldlM add { diagnostics := { sampleSize } }

def builtRecord (files : Nat) (t : GroupTable) : Record :=
  let counts : List (Text × Data) :=
    [("files", .int files), ("plugins", .int t.groups.size), ("keys", .int t.keyCount)]
  let issues : List (Text × Data) :=
    if t.diagnostics.hasIssues then [("diagnostics", t.diagnostics.summary.toData)] else []
  .from "pipeline" ⟨.info, "Reference built", counts ++ issues⟩

/-- The tables of the sources. Their document has to keep its keys as JSON. -/
def build (settings : Settings) (sources : List Source) (parser : TypeScript.Parser := TypeScript.parse)
    (host : Host := {}) : Attempt Reference := do
  let results ← Attempt.ofLogged (extractAll settings.limits sources parser)
  let table ← Attempt.ofLogged (mergeAll settings.sampleSize results)
  let _ ← Attempt.ofExcept (Document.verifyRoundTrip none table.toData host)
  Attempt.log (builtRecord results.length table)
  return { table, results }

end Reference

end MessageCatalog
