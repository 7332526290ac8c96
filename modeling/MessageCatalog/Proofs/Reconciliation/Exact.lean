/-
  MessageCatalog.Proofs.Reconciliation.Exact — reconciling as an exact difference.

  For a reference of texts a report is a function of the reference's keys and, language by
  language, of the keys deployed for it: a report of one run says all there is to say about
  another run with the same keys (`Check.Reports.get?`).

  Proved, for repeated keys, repeated languages and languages without a list
  (`reconcile_exact`):
  - missing and extra keys are the two ordered differences, and nothing is counted twice;
  - a language depends on no other, and on no text of the reference;
  - with the two sides exchanged, missing and extra change places;
  - a language that drops its extra keys and adds its missing ones has no difference left.
-/

import Mathlib.Data.List.Basic
import MessageCatalog.Proofs.Reconciliation.Reconcile

namespace MessageCatalog.Reconciliation

open Document (textPairs)

/-! ## Differences -/

/-- What a report says of a language that has these keys deployed, repetitions included. -/
structure IsDifference (reference deployed : List Text) (x : Difference) : Prop where
  missing : x.missing = (reference.filter fun k => k ∉ deployed).map .text
  extra : x.extra = ((dedup deployed).filter fun k => k ∉ reference).map .text
  missingOnce : x.missing.Nodup
  extraOnce : x.extra.Nodup
  count : x.missing.length + (dedup deployed).length = x.extra.length + reference.length

theorem mem_dedup {k : Text} {ks : List Text} : k ∈ dedup ks ↔ k ∈ ks :=
  Distinct.mem_dedup_iff fun _ => beq_iff_eq

theorem nodup_dedup (ks : List Text) : (dedup ks).Nodup := (Distinct.ofList ks).nodup

theorem nodup_texts {ks : List Text} (h : ks.Nodup) (p : Text → Bool) : ((ks.filter p).map Data.text).Nodup :=
  List.pairwise_map.2 ((h.sublist List.filter_sublist).imp fun hne e => hne (Data.text.inj e))

/-- What two lists share counts on both sides. -/
theorem length_difference {as bs : List Text} (ha : as.Nodup) (hb : bs.Nodup) :
    (as.filter fun k => k ∉ bs).length + bs.length = (bs.filter fun k => k ∉ as).length + as.length := by
  have hshared : (as.filter fun k => k ∈ bs).length = (bs.filter fun k => k ∈ as).length := by
    have hperm : (as.filter fun k => k ∈ bs).Perm (bs.filter fun k => k ∈ as) := by
      refine (List.perm_ext_iff_of_nodup (ha.sublist List.filter_sublist) (hb.sublist List.filter_sublist)).2 ?_
      intro k
      simp only [List.mem_filter, decide_eq_true_eq]
      exact and_comm
    exact hperm.length_eq
  have hsplit : ∀ xs ys : List Text,
      xs.length = (xs.filter fun k => k ∈ ys).length + (xs.filter fun k => k ∉ ys).length := by
    intro xs ys
    simpa only [decide_not] using List.length_eq_length_filter_add (l := xs) fun k => decide (k ∈ ys)
  have h₁ := hsplit as bs
  have h₂ := hsplit bs as
  omega

theorem isDifference_ofKeys {reference : List Text} (h : reference.Nodup) (deployed : List Text) :
    IsDifference reference deployed (.ofKeys reference (dedup deployed)) where
  missing := by simp only [Difference.ofKeys, mem_dedup]
  extra := rfl
  missingOnce := nodup_texts h _
  extraOnce := nodup_texts (nodup_dedup deployed) _
  count := by
    rw [Difference.ofKeys, List.length_map, List.length_map]
    exact length_difference h (nodup_dedup deployed)

theorem ofKeys_nil_iff (reference deployed : List Text) :
    Difference.ofKeys reference deployed = ⟨[], []⟩ ↔ ∀ k, k ∈ reference ↔ k ∈ deployed := by
  simp only [Difference.ofKeys, Difference.mk.injEq, List.map_eq_nil_iff, List.filter_eq_nil_iff, decide_eq_true_eq,
    Decidable.not_not]
  exact ⟨fun h k => ⟨h.1 k, h.2 k⟩, fun h => ⟨fun k => (h k).1, fun k => (h k).2⟩⟩

theorem mem_repaired {reference deployed repaired : List Text}
    (h : repaired.map Data.text = without (deployed.map .text) (Difference.ofKeys reference (dedup deployed)).extra ++
      (Difference.ofKeys reference (dedup deployed)).missing) (k : Text) :
    k ∈ reference ↔ k ∈ repaired := by
  rw [Difference.ofKeys, without_texts, ← List.map_append] at h
  have hlist := (List.map_inj_right (fun _ _ e => Data.text.inj e)).1 h
  simp only [hlist, List.mem_append, List.mem_filter, decide_eq_true_eq, mem_dedup]
  by_cases hr : k ∈ reference <;> by_cases hd : k ∈ deployed <;> simp [hr, hd]

/-! ## Runs -/

/-- What is reconciled: a reference of texts, and by language a list of keys or null. The
languages that have an entry are checked if no others are named. -/
structure Check where
  reference : Table Text Text
  deployed : Table Text (Option (List Text))
  languages : Option (List Text) := none
  artifact : Option Text := none

namespace Check

def deployedValues (c : Check) : List (Data × Data) :=
  c.deployed.entries.map fun e => (.text e.1, e.2.elim .null Data.ofTexts)

def names (c : Check) : List Text := c.languages.getD c.deployed.keys

/-- The keys deployed for a language, repetitions included; none without a list. -/
def keysOf (c : Check) (l : Text) : List Text := (c.deployed.get? l).join.getD []

/-- Reconciling gives this report. -/
def Reports (c : Check) (d : Discrepancies) : Prop :=
  (reconcile (textPairs c.reference) c.deployedValues (c.languages.map .ofTexts) c.artifact).run.value = .ok d

theorem lists_deployed (c : Check) : Lists c.deployedValues c.keysOf := by
  intro reference l
  rw [deployedValues, Data.get?_text c.deployed fun ks => ks.elim .null Data.ofTexts, keysOf]
  cases c.deployed.get? l with
  | none => exact compare_texts reference none
  | some ks =>
    cases ks with
    | none => exact compare_texts reference none
    | some ks => exact compare_texts reference (some ks)

theorem checked_names (c : Check) :
    checkedLanguages c.deployedValues (c.languages.map .ofTexts) = some (c.names.map .text) := by
  rw [checkedLanguages, names]
  cases c.languages with
  | none =>
    rw [Option.map_none, Option.elim_none, deployedValues, List.map_map, Option.getD_none, Table.keys, List.map_map]
    rfl
  | some ls => rfl

variable {c : Check} {d : Discrepancies}

theorem reports (c : Check) :
    ∃ d, c.Reports d ∧
      d.languages.entries =
        (dedup c.names).map fun l => (.text l, .ofKeys c.reference.keys (dedup (c.keysOf l))) := by
  obtain ⟨d, hrun, -, hentries⟩ := reconcile_listed c.reference c.lists_deployed _ c.checked_names c.artifact
  exact ⟨d, hrun, hentries⟩

theorem Reports.entries (h : c.Reports d) :
    d.languages.entries =
      (dedup c.names).map fun l => (.text l, .ofKeys c.reference.keys (dedup (c.keysOf l))) := by
  obtain ⟨d', hd', hentries⟩ := c.reports
  obtain rfl : d' = d := Except.ok.inj (hd'.symm.trans h)
  exact hentries

theorem Reports.get? (h : c.Reports d) {l : Text} (hl : l ∈ c.names) :
    d.languages.get? (.text l) = some (.ofKeys c.reference.keys (dedup (c.keysOf l))) := by
  have hfind : (dedup c.names).find? (fun n => n == l) = some l := by
    have hsome : ((dedup c.names).find? fun n => n == l).isSome = true :=
      List.find?_isSome.2 ⟨l, mem_dedup.2 hl, beq_self_eq_true l⟩
    obtain ⟨n, hn⟩ := Option.isSome_iff_exists.1 hsome
    have hnl : (n == l) = true := List.find?_some (p := fun n => n == l) hn
    rw [hn, eq_of_beq hnl]
  rw [Table.get?, h.entries, List.find?_map, Option.map_map]
  exact congrArg (Option.map _) hfind

theorem Reports.any_iff (h : c.Reports d) :
    d.any = false ↔ ∀ l ∈ c.names, d.languages.get? (.text l) = some ⟨[], []⟩ := by
  have hrow : ∀ x : Difference, (!x.missing.isEmpty || !x.extra.isEmpty) = false ↔ x = ⟨[], []⟩ := by
    rintro ⟨ms, es⟩
    cases ms <;> cases es <;> simp
  rw [Discrepancies.any, h.entries, List.any_map, List.any_eq_false]
  simp only [Function.comp_apply, Bool.not_eq_true, hrow, mem_dedup]
  refine forall₂_congr fun l hl => ?_
  rw [h.get? hl, Option.some.injEq]

/-- The report of one run. -/
structure Exact (c : Check) (d : Discrepancies) : Prop where
  listed : d.languages.keys = (dedup c.names).map .text
  difference : ∀ l ∈ c.names,
    ∃ x, d.languages.get? (.text l) = some x ∧ IsDifference c.reference.keys (c.keysOf l) x
  /-- A language that is null or has no entry lacks every key. -/
  absent : ∀ l ∈ c.names, (c.deployed.get? l).join = none →
    d.languages.get? (.text l) = some ⟨c.reference.keys.map .text, []⟩
  clean : d.any = false ↔ ∀ l ∈ c.names, ∀ k, k ∈ c.reference.keys ↔ k ∈ c.keysOf l

theorem Reports.exact (h : c.Reports d) : c.Exact d where
  listed := by
    rw [Table.keys, h.entries, List.map_map]
    rfl
  difference l hl := ⟨_, h.get? hl, isDifference_ofKeys c.reference.keys_nodup (c.keysOf l)⟩
  absent l hl hnone := by
    have hkeys : c.keysOf l = [] := by rw [keysOf, hnone]; rfl
    have hall := (isDifference_ofKeys c.reference.keys_nodup []).missing
    rw [List.filter_eq_self.2 (by simp)] at hall
    rw [h.get? hl, hkeys, Option.some.injEq]
    exact congrArg (Difference.mk · []) hall
  clean := by
    rw [h.any_iff]
    refine forall₂_congr fun l hl => ?_
    rw [h.get? hl, Option.some.injEq, ofKeys_nil_iff]
    simp only [mem_dedup]

/-- In `c'` the language has the keys it has in `c`, less those reported as extra, and then
those reported as missing. -/
def RepairedBy (c : Check) (d : Discrepancies) (c' : Check) (l : Text) : Prop :=
  ∃ x, d.languages.get? (.text l) = some x ∧
    (c'.keysOf l).map Data.text = without ((c.keysOf l).map .text) x.extra ++ x.missing

theorem Reports.repaired (h : c.Reports d) {c' : Check} {d' : Discrepancies} (h' : c'.Reports d')
    (hkeys : c'.reference.keys = c.reference.keys) {l : Text} (hl : l ∈ c.names) (hl' : l ∈ c'.names)
    (hr : c.RepairedBy d c' l) : d'.languages.get? (.text l) = some ⟨[], []⟩ := by
  obtain ⟨x, hx, hlist⟩ := hr
  rw [h.get? hl] at hx
  cases hx
  rw [h'.get? hl', hkeys, Option.some.injEq, ofKeys_nil_iff]
  intro k
  rw [mem_dedup]
  exact mem_repaired hlist k

end Check

/-! ## Laws -/

/-- Reconciling is an exact ordered difference, for every language on its own: no other
language and no text of the reference changes it, exchanging the two sides exchanges missing
and extra, and a language that is repaired has no difference left. -/
theorem reconcile_exact (c : Check) :
    ∃ d, c.Reports d ∧ c.Exact d ∧ ∀ (c' : Check) (d' : Discrepancies), c'.Reports d' →
      (∀ l ∈ c.names, l ∈ c'.names →
        (c'.reference.keys = c.reference.keys → c'.deployed.get? l = c.deployed.get? l →
          d'.languages.get? (.text l) = d.languages.get? (.text l)) ∧
        (c'.reference.keys = dedup (c.keysOf l) → c'.keysOf l = c.reference.keys →
          ∃ x, d.languages.get? (.text l) = some x ∧
            d'.languages.get? (.text l) = some { missing := x.extra, extra := x.missing }) ∧
        (c'.reference.keys = c.reference.keys → c.RepairedBy d c' l →
          d'.languages.get? (.text l) = some { missing := [], extra := [] })) ∧
      (c'.reference.keys = c.reference.keys → c'.names = c.names → (∀ l ∈ c.names, c.RepairedBy d c' l) →
        d'.any = false) := by
  obtain ⟨d, hd, -⟩ := c.reports
  refine ⟨d, hd, hd.exact, fun c' d' hd' => ⟨fun l hl hl' => ⟨?_, ?_, ?_⟩, ?_⟩⟩
  · intro hkeys hsame
    rw [hd.get? hl, hd'.get? hl', hkeys, Check.keysOf, Check.keysOf, hsame]
  · intro hreference hdeployed
    have honce : dedup c.reference.keys = c.reference.keys := Distinct.toList_ofList c.reference.distinct
    rw [hd.get? hl, hd'.get? hl', hreference, hdeployed, honce]
    exact ⟨_, rfl, rfl⟩
  · exact fun hkeys => hd.repaired hd' hkeys hl hl'
  · intro hkeys hnames hall
    rw [hd'.any_iff, hnames]
    exact fun l hl => hd.repaired hd' hkeys hl (hnames ▸ hl) (hall l hl)

def sampleCheck : Check where
  reference := .ofList [("z", "Z"), ("a", "A"), ("m", "M")]
  deployed := .ofList [("fr", some ["y", "a", "x", "y"]), ("ja", none)]
  languages := some ["fr", "it", "ja", "fr"]

def sampleRepair : Check :=
  { sampleCheck with
    deployed := .ofList [("ja", some ["z", "a", "m"]), ("it", some ["z", "a", "m"]), ("fr", some ["a", "z", "m"])] }

theorem reconcile_exact_sample :
    ∃ d d', sampleCheck.Reports d ∧ sampleCheck.Exact d ∧ sampleRepair.Reports d' ∧
      d.languages.get? (.text "fr") = some ⟨[.text "z", .text "m"], [.text "y", .text "x"]⟩ ∧ d'.any = false := by
  obtain ⟨d, hd, hexact, hlaws⟩ := reconcile_exact sampleCheck
  obtain ⟨d', hd', -⟩ := reconcile_exact sampleRepair
  have hfr : d.languages.get? (.text "fr") = some ⟨[.text "z", .text "m"], [.text "y", .text "x"]⟩ :=
    (hd.get? (show ("fr" : Text) ∈ sampleCheck.names by decide)).trans rfl
  have hlacking : ∀ l ∈ sampleCheck.names, l ≠ "fr" →
      d.languages.get? (.text l) = some ⟨[.text "z", .text "a", .text "m"], []⟩ := by
    intro l hl hne
    exact hexact.absent l hl (by revert l; decide)
  have hrepaired : ∀ l ∈ sampleCheck.names, sampleCheck.RepairedBy d sampleRepair l := by
    intro l hl
    by_cases hne : l = "fr"
    · subst hne
      exact ⟨_, hfr, rfl⟩
    · refine ⟨_, hlacking l hl hne, ?_⟩
      obtain rfl | rfl : l = "it" ∨ l = "ja" := by revert l; decide
      · rfl
      · rfl
  exact ⟨d, d', hd, hexact, hd', hfr, (hlaws sampleRepair d' hd').2 rfl rfl hrepaired⟩

end MessageCatalog.Reconciliation
