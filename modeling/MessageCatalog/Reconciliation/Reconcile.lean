/-
  MessageCatalog.Reconciliation.Reconcile — reference keys against deployed keys.

  Missing are the reference keys that a language does not have, in the order of the
  reference; extra are its keys that the reference does not have, in its own order. Only
  keys whose value is text take part. A language without a set lacks every key.
-/

import MessageCatalog.Document
import MessageCatalog.Reconciliation.Discrepancies

namespace MessageCatalog.Reconciliation

def translatable (reference : List (Data × Data)) : List Data := (reference.filter (·.2.isText)).map (·.1)

def without (xs ys : List Data) : List Data := xs.filter fun x => !ys.any (x == ·)

/-- What is missing from the deployed keys, and what they have beyond the reference. -/
def difference (reference deployed : List Data) : Difference :=
  let deployed := dedup deployed
  ⟨without reference deployed, without deployed reference⟩

def compare (reference : List Data) (deployed : Option Data) : Except Fault Difference :=
  match deployed with
  | none | some .null => .ok ⟨reference, []⟩
  | some d =>
    match d.items? with
    | none => .error (.plain .wrongType)
    | some keys =>
      if Data.areHashable keys then .ok (difference reference keys) else .error (.plain .wrongType)

def compareAll (reference : List Data) (deployed : List (Data × Data)) (languages : List Data) :
    Except Fault (Table Data Difference) :=
  languages.foldlM
    (fun table language =>
      if language.isHashable then do
        return table.insert language (← compare reference (Data.get? deployed language))
      else .error (.plain .wrongType))
    .empty

/-! ## Logging -/

def hygieneRecord (w : Warning) : Record :=
  .from "reconciler"
    ⟨if w.kind.isInformational then .info else .warning, "Translation value hygiene",
      [("key", w.shownKey), ("kind", .text w.kind.name)]⟩

def discrepancyRecord (languages : Table Data Difference) : Record :=
  let counts (d : Difference) : Data :=
    .mapping [(.text "missing", .int d.missing.length), (.text "extra", .int d.extra.length)]
  .from "reconciler"
    ⟨.info, "Reconciliation found discrepancies",
      [("languages", .mapping (languages.entries.map fun e => (e.1, counts e.2)))]⟩

/-! ## Reconciling -/

/-- A reference table against what is deployed per language, for the given languages or
for all that have something deployed. The reference has to keep its keys when it is
written as JSON. -/
def reconcile (reference deployed : List (Data × Data)) (languages : Option Data) (artifact : Option Text)
    (host : Host := {}) : Attempt Discrepancies := do
  let referenceCount ← Attempt.ofExcept (Document.verifyRoundTrip artifact (.mapping reference) host)
  let warnings := checkHygiene reference
  Attempt.ofLogged (Logged.logAll (warnings.map hygieneRecord))
  let checked : Option (List Data) :=
    match languages with
    | none => some (deployed.map (·.1))
    | some d => d.items?
  match checked with
  | none => throw (.plain .wrongType)
  | some checked =>
    let table ← Attempt.ofExcept (compareAll (translatable reference) deployed checked)
    let d : Discrepancies := { languages := table, warnings, referenceCount }
    if d.any then Attempt.log (discrepancyRecord table)
    return d

end MessageCatalog.Reconciliation
