/-
  MessageCatalog.Reconciliation.Discrepancies — what deployed languages lack and what they
  have too much, and how that is reported.
-/

import MessageCatalog.Data.Order
import MessageCatalog.Reconciliation.Hygiene
import MessageCatalog.Sample

namespace MessageCatalog.Reconciliation

structure Difference where
  missing : List Data := []
  extra : List Data := []

structure Discrepancies where
  languages : Table Data Difference := .empty
  warnings : List Warning := []
  /-- The number of keys of the reference. -/
  referenceCount : Nat := 0

namespace Discrepancies

def any (d : Discrepancies) : Bool := d.languages.entries.any fun e => !e.2.missing.isEmpty || !e.2.extra.isEmpty

/-- The languages in ascending order; none if they cannot be ordered. -/
def sortedLanguages? (d : Discrepancies) : Option (List (Data × Difference)) := do
  let names ← Data.sorted? d.languages.keys
  return names.map fun l => (l, (d.languages.get? l).getD {})

/-! ## Summary -/

structure LanguageSummary where
  missing : Nat
  missingSample : List Data
  extra : Nat
  extraSample : List Data

def warningCount (d : Discrepancies) (k : WarningKind) : Nat := d.warnings.countP (·.kind = k)

/-- Per language, counts and the first few keys. -/
def summary? (d : Discrepancies) (sampleSize : Int) : Option (List (Data × LanguageSummary)) := do
  return (← d.sortedLanguages?).map fun (l, x) =>
    (l, ⟨x.missing.length, sample sampleSize x.missing, x.extra.length, sample sampleSize x.extra⟩)

/-! ## Lines -/

def asText? : Data → Option Text
  | .text t => some t
  | _ => none

/-- A line on the keys of a language, if there are any; none if a shown key is no text. -/
def keyLines? (sampleSize : Int) (language : Data) (label : Text) (keys : List Data) : Option (List Text) :=
  if keys.isEmpty then some []
  else do
    let names ← (sample sampleSize keys).mapM asText?
    let more : Text := if sampleSize < keys.length then "..." else []
    return [language.toText ++ ": " ++ Text.ofNat keys.length ++ " " ++ label ++ " key(s): "
      ++ Text.joinWith ", " names ++ more]

def languageLines? (sampleSize : Int) (language : Data) (x : Difference) : Option (List Text) := do
  return (← keyLines? sampleSize language "missing" x.missing) ++ (← keyLines? sampleSize language "extra" x.extra)

/-- The report in lines: the languages in ascending order, then the warnings. -/
def lines? (d : Discrepancies) (sampleSize : Int) : Option (List Text) := do
  let perLanguage ← (← d.sortedLanguages?).mapM fun (l, x) => languageLines? sampleSize l x
  return perLanguage.flatten ++ d.warnings.map fun w => ("warning: " : Text) ++ w.message

end Discrepancies

end MessageCatalog.Reconciliation
