/-
  MessageCatalog.Proofs.Reconciliation.Reconcile — the difference of two lists of keys.

  The outcome is computed without the log (`value_reconcile`): the reference is written and
  counted, then every language is compared. A reference of texts always survives its round trip
  and keys that are texts are always comparable, so reconciling them gives a report, and the
  report is computed language by language (`reconcile_listed`).
-/

import MessageCatalog.Proofs.Attempt
import MessageCatalog.Proofs.Document
import MessageCatalog.Reconciliation.Artifacts

namespace MessageCatalog.Reconciliation

open Document (textPairs)

/-! ## One language -/

/-- The keys of the reference that are not deployed, and the deployed keys that are not in
the reference. -/
def Difference.ofKeys (reference deployed : List Text) : Difference where
  missing := (reference.filter fun k => k ∉ deployed).map .text
  extra := (deployed.filter fun k => k ∉ reference).map .text

theorem without_texts (ks ls : List Text) :
    without (ks.map .text) (ls.map .text) = (ks.filter fun k => k ∉ ls).map .text := by
  rw [without, List.filter_map]
  congr 1
  refine List.filter_congr fun k _ => ?_
  rw [Function.comp_apply, Data.any_text, decide_not]

theorem dedup_texts (ks : List Text) : dedup (ks.map Data.text) = (dedup ks).map .text :=
  Distinct.dedup_map Data.text_beq ks

theorem difference_texts (reference deployed : List Text) :
    difference (reference.map .text) (deployed.map .text) = .ofKeys reference (dedup deployed) := by
  rw [difference, dedup_texts]
  simp only [without_texts]
  rfl

theorem compare_texts (reference : List Text) (deployed : Option (List Text)) :
    compare (reference.map .text) (deployed.map Data.ofTexts) =
      .ok (.ofKeys reference (dedup (deployed.getD []))) := by
  cases deployed with
  | none =>
    have hall : (reference.filter fun k => k ∉ ([] : List Text)) = reference := List.filter_eq_self.2 (by simp)
    have hnone : Difference.ofKeys reference [] = ⟨reference.map .text, []⟩ := by
      rw [Difference.ofKeys, hall]
      rfl
    exact congrArg Except.ok hnone.symm
  | some ks =>
    have hhash := Data.areHashable_texts ks
    simp only [Option.map_some, compare, Data.ofTexts, Data.items?, hhash, if_true, difference_texts,
      Option.getD_some]

theorem translatable_texts (t : Table Text Text) : translatable (textPairs t) = t.keys.map .text := by
  have hall : (textPairs t).filter (·.2.isText) = textPairs t := by
    refine List.filter_eq_self.2 fun p hp => ?_
    obtain ⟨e, -, rfl⟩ := List.mem_map.1 hp
    rfl
  rw [translatable, hall, Document.textPairs_keys]

/-! ## All languages -/

/-- What is known of a deployment: the keys it has for a language, repetitions included. -/
def Lists (deployed : List (Data × Data)) (keysOf : Text → List Text) : Prop :=
  ∀ (reference : List Text) (l : Text),
    compare (reference.map .text) (Data.get? deployed (.text l)) = .ok (.ofKeys reference (dedup (keysOf l)))

def checkedLanguages (deployed : List (Data × Data)) (languages : Option Data) : Option (List Data) :=
  languages.elim (some (deployed.map (·.1))) Data.items?

/-- What is logged apart, the reference is counted, then the languages are listed and compared. -/
theorem value_reconcile (reference deployed : List (Data × Data)) (languages : Option Data) (artifact : Option Text)
    (host : Host) :
    (reconcile reference deployed languages artifact host).run.value =
      (Document.verifyRoundTrip artifact (.mapping reference) host).bind fun n =>
        (checkedLanguages deployed languages).elim (.error (.plain .wrongType)) fun checked =>
          (compareAll (translatable reference) deployed checked).map fun table =>
            ⟨table, checkHygiene reference, n⟩ := by
  have hcompared (n : Nat) (checked : List Data) :
      (do
        let table ← Attempt.ofExcept (compareAll (translatable reference) deployed checked)
        let d : Discrepancies := ⟨table, checkHygiene reference, n⟩
        if d.any then Attempt.log (discrepancyRecord table)
        return d : Attempt Discrepancies).run.value =
      (compareAll (translatable reference) deployed checked).map fun table => ⟨table, checkHygiene reference, n⟩ := by
    rw [Attempt.value_bind, Attempt.value_ofExcept]
    cases compareAll (translatable reference) deployed checked with
    | error f => rfl
    | ok table =>
      dsimp only [Except.bind]
      split <;> rfl
  unfold reconcile
  rw [Attempt.value_bind, Attempt.value_ofExcept]
  congr 1
  funext n
  rw [Attempt.value_bind, Attempt.value_ofLogged]
  cases languages with
  | none => exact hcompared n _
  | some listed =>
    cases hitems : listed.items? with
    | none =>
      simp only [checkedLanguages, Option.elim_some, hitems]
      rfl
    | some checked =>
      simp only [checkedLanguages, Option.elim_some, hitems]
      exact hcompared n checked

theorem lists_deployedData (deployed : Table Text (List Text)) :
    Lists (deployedData deployed.entries) fun l => (deployed.get? l).getD [] := by
  intro reference l
  rw [deployedData, Data.get?_text, compare_texts]

section

variable {deployed : List (Data × Data)} {keysOf : Text → List Text}

theorem compareAll_texts (reference : List Text) (h : Lists deployed keysOf) (languages : List Text) :
    ∃ table, compareAll (reference.map .text) deployed (languages.map .text) = .ok table ∧
      table.entries = (dedup languages).map fun l => (.text l, .ofKeys reference (dedup (keysOf l))) := by
  have hall : compareAll (reference.map .text) deployed (languages.map .text) =
      .ok (.ofList (languages.map fun l => (.text l, .ofKeys reference (dedup (keysOf l))))) := by
    rw [compareAll, List.foldlM_map]
    simp only [h reference]
    rw [Table.ofList, Table.insertAll, List.foldl_map]
    exact List.foldlM_pure
  exact ⟨_, hall, Table.entries_ofRows Data.text_beq _ languages⟩

/-- A reference of texts is always reconciled, each language once and on its own. -/
theorem reconcile_listed (reference : Table Text Text) (h : Lists deployed keysOf) (languages : Option Data)
    {names : List Text} (hnames : checkedLanguages deployed languages = some (names.map .text))
    (artifact : Option Text) :
    ∃ d, (reconcile (textPairs reference) deployed languages artifact).run.value = .ok d ∧
      d.referenceCount = reference.size ∧
      d.languages.entries = (dedup names).map fun l => (.text l, .ofKeys reference.keys (dedup (keysOf l))) := by
  obtain ⟨table, hall, hentries⟩ := compareAll_texts reference.keys h names
  refine ⟨⟨table, checkHygiene (textPairs reference), reference.size⟩, ?_, rfl, hentries⟩
  rw [value_reconcile, Document.verifyRoundTrip_texts, hnames, translatable_texts]
  simp only [Except.bind, Option.elim_some, hall]
  rfl

end

theorem reconcile_texts (reference : Table Text Text) (deployed : Table Text (List Text)) {languages : List Text}
    (hlanguages : languages.Pairwise fun a b => (a == b) = false) (artifact : Option Text) :
    ∃ d, (reconcile (textPairs reference) (deployedData deployed.entries) (some (.ofTexts languages)) artifact).run.value =
        .ok d ∧
      d.referenceCount = reference.size ∧
      d.languages.entries =
        languages.map fun l => (.text l, .ofKeys reference.keys (dedup ((deployed.get? l).getD []))) := by
  obtain ⟨d, hrun, hcount, hentries⟩ :=
    reconcile_listed reference (lists_deployedData deployed) (some (.ofTexts languages)) rfl artifact
  have honce : dedup languages = languages := Distinct.toList_ofList hlanguages
  exact ⟨d, hrun, hcount, by rw [hentries, honce]⟩

end MessageCatalog.Reconciliation
