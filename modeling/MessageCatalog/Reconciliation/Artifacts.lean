/-
  MessageCatalog.Reconciliation.Artifacts — a reference table against artifacts' texts.

  Checked are the configured languages and those that have an artifact. An artifact whose
  literal is too large counts as none; one that is nested deeper than calls can be ends the run.
-/

import MessageCatalog.Artifact.KeySet
import MessageCatalog.Diagnostics
import MessageCatalog.Reconciliation.Reconcile
import MessageCatalog.Settings.Validate

namespace MessageCatalog.Reconciliation

/-- Key sets per language, and the diagnostics if there are any to record in. -/
structure Collected where
  keySets : Table Text (List Text) := .empty
  diagnostics : Option Diagnostics := none

def tooLargeRecord (language : Text) (r : Report) : Record :=
  .from "pipeline" ⟨.warning, "Artifact literal too large", ("language", .text language) :: r.context⟩

/-- A report on one language's artifact: recorded, or else logged. -/
def note (c : Collected) (language : Text) (r : Report) : Logged Collected :=
  match c.diagnostics with
  | some d => do return { c with diagnostics := some (← d.recordError r (some language)) }
  | none => do
    Logged.log (tooLargeRecord language r)
    return c

def collectOne (host : Host) (limits : Limits) (c : Collected) (artifact : Text × Text) : Attempt Collected := do
  match ← Attempt.ofLogged (Artifact.keySet limits artifact.2 host).run with
  | .ok keys => return { c with keySets := c.keySets.insert artifact.1 keys }
  | .error fault =>
    match fault.report? with
    | some r => Attempt.ofLogged (note c artifact.1 r)
    | none => throw fault

def collect (limits : Limits) (diagnostics : Option Diagnostics) (artifacts : List (Text × Text)) (host : Host := {}) :
    Attempt Collected :=
  artifacts.foldlM (collectOne host limits) { diagnostics }

def deployedData (keySets : List (Text × List Text)) : List (Data × Data) :=
  keySets.map fun e => (.text e.1, .ofTexts e.2)

def lineRecord (artifact : Option Text) (line : Text) : Record :=
  .from "pipeline" ⟨.info, line, [("artifact", (artifact.map .text).getD .null)]⟩

/-- A reference against the artifacts of its languages, the report logged by lines. -/
def reconcileArtifacts (settings : Settings) (reference : List (Data × Data)) (artifacts : List (Text × Text))
    (artifact : Option Text) (host : Host := {}) : Attempt Discrepancies := do
  let keySets := (← collect settings.limits none artifacts host).keySets
  let languages := dedup (settings.languages ++ keySets.keys)
  let d ← reconcile reference (deployedData keySets.entries) (some (.ofTexts languages)) artifact host
  match d.lines? settings.sampleSize with
  | some lines => Attempt.ofLogged (Logged.logAll (lines.map (lineRecord artifact)))
  | none => throw (.plain .wrongType)
  return d

end MessageCatalog.Reconciliation
