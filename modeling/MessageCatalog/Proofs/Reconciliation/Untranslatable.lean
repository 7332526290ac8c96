/-
  MessageCatalog.Proofs.Reconciliation.Untranslatable — reference keys whose value is no text.

  Only keys with a text are to be translated, so the others are never missing. They are not
  left out on the other side: one that is deployed is an extra key, though the reference has
  it (`reconcile_compared`, `reconcile_untranslatable_extra`). When there is a report at all,
  whatever is deployed, is `reconcile_ok_iff` and `compareAll_ok_iff`.
-/

import MessageCatalog.Proofs.Reconciliation.Reconcile

namespace MessageCatalog.Reconciliation

/-! ## One language -/

def referencePairs (t : Table Text Data) : List (Data × Data) := t.entries.map fun e => (.text e.1, e.2)

/-- The reference has a text at the key. -/
def IsTranslatable (reference : Table Text Data) (k : Text) : Prop := ∃ t, reference.get? k = some (.text t)

/-- The keys deployed for a language, repetitions included; none without a list. -/
def deployedKeys (deployed : List (Data × Data)) (language : Data) : List Data :=
  ((Data.get? deployed language).bind Data.items?).getD []

/-- What a report says of a language that has these keys deployed. -/
structure Compared (reference : Table Text Data) (deployed : List Data) (x : Difference) : Prop where
  missing : ∀ k, .text k ∈ x.missing ↔ IsTranslatable reference k ∧ .text k ∉ deployed
  extra : ∀ k, .text k ∈ x.extra ↔ .text k ∈ deployed ∧ ¬ IsTranslatable reference k

theorem mem_translatable {reference : Table Text Data} {k : Text} :
    .text k ∈ translatable (referencePairs reference) ↔ IsTranslatable reference k := by
  constructor
  · intro h
    obtain ⟨p, hp, hk⟩ := List.mem_map.1 h
    obtain ⟨hp, htext⟩ := List.mem_filter.1 hp
    obtain ⟨⟨k', v⟩, he, rfl⟩ := List.mem_map.1 hp
    obtain rfl : k' = k := Data.text.inj hk
    cases v with
    | text t => exact ⟨t, Table.get?_of_mem he⟩
    | _ => cases htext
  · rintro ⟨t, ht⟩
    refine List.mem_map.2 ⟨(.text k, .text t), List.mem_filter.2 ⟨?_, rfl⟩, rfl⟩
    exact List.mem_map_of_mem (f := fun e : Text × Data => (Data.text e.1, e.2)) (Table.mem_of_get? ht)

theorem mem_without {k : Text} {xs ys : List Data} :
    .text k ∈ without xs ys ↔ .text k ∈ xs ∧ .text k ∉ ys := by
  rw [without, List.mem_filter, Bool.not_eq_true', Bool.eq_false_iff, ne_eq, List.any_eq_true]
  simp only [Data.text_beq_iff, exists_eq_right]

theorem mem_dedup_text {k : Text} {ds : List Data} : .text k ∈ dedup ds ↔ .text k ∈ ds :=
  Distinct.mem_dedup_iff fun _ => Data.beq_text_iff

theorem compared_difference (reference : Table Text Data) (deployed : List Data) :
    Compared reference deployed (difference (translatable (referencePairs reference)) deployed) where
  missing k := by rw [difference, mem_without, mem_translatable, mem_dedup_text]
  extra k := by rw [difference, mem_without, mem_translatable, mem_dedup_text]

/-- Null, or a list of keys. -/
def IsKeyList (d : Data) : Prop := d = .null ∨ ∃ keys, d.items? = some keys ∧ Data.areHashable keys = true

/-- A language is compared if a list of keys or none is deployed for it. Without one it is
compared as if its list were empty. -/
theorem compare_ok_iff {reference : List Data} {deployed : Option Data} {x : Difference} :
    compare reference deployed = .ok x ↔
      (∀ d, deployed = some d → IsKeyList d) ∧ difference reference ((deployed.bind Data.items?).getD []) = x := by
  have hempty : difference reference [] = ⟨reference, []⟩ := by
    have hall : without reference (dedup []) = reference := List.filter_eq_self.2 fun _ _ => rfl
    rw [difference, hall]
    rfl
  have hnull (d : Data) (h : some .null = some d) : IsKeyList d := .inl (Option.some.inj h).symm
  unfold compare
  split
  · simp [hempty]
  · simp [hempty, Data.items?, hnull]
  · rename_i d hne
    have hlist : IsKeyList d ↔ ∃ keys, d.items? = some keys ∧ Data.areHashable keys = true :=
      or_iff_right hne
    split
    · rename_i hnone
      simp [hlist, hnone]
    · rename_i keys hkeys
      split
      · rename_i hhash
        simp [hlist, hkeys, hhash]
      · rename_i hhash
        simp [hlist, hkeys, hhash]

/-! ## All languages -/

theorem compareAll_ok_iff {reference : List Data} {deployed : List (Data × Data)} {languages : List Data}
    {table : Table Data Difference} :
    compareAll reference deployed languages = .ok table ↔
      (∀ l ∈ languages, l.isHashable = true ∧ ∀ d, Data.get? deployed l = some d → IsKeyList d) ∧
        .ofList (languages.map fun l => (l, difference reference (deployedKeys deployed l))) = table := by
  suffices hall : ∀ t : Table Data Difference,
      languages.foldlM
        (fun table language =>
          if language.isHashable then do
            return table.insert language (← compare reference (Data.get? deployed language))
          else .error (.plain .wrongType)) t = Except.ok table ↔
      (∀ l ∈ languages, l.isHashable = true ∧ ∀ d, Data.get? deployed l = some d → IsKeyList d) ∧
        t.insertAll (languages.map fun l => (l, difference reference (deployedKeys deployed l))) = table from
    hall .empty
  induction languages with
  | nil => exact fun t => ⟨fun h => ⟨List.forall_mem_nil _, Except.ok.inj h⟩, fun h => congrArg Except.ok h.2⟩
  | cons l ls ih =>
    intro t
    rw [List.foldlM_cons, List.forall_mem_cons]
    by_cases hhash : l.isHashable = true
    · rw [if_pos hhash]
      cases hx : compare reference (Data.get? deployed l) with
      | error f =>
        have hrefused : ¬ ∀ d, Data.get? deployed l = some d → IsKeyList d := by
          intro h
          have hok := compare_ok_iff (x := difference reference (deployedKeys deployed l)) |>.2 ⟨h, rfl⟩
          rw [hx] at hok
          cases hok
        constructor
        · intro h
          cases h
        · exact fun h => absurd h.1.1.2 hrefused
      | ok x =>
        obtain ⟨hlist, rfl⟩ := compare_ok_iff.1 hx
        refine (ih _).trans ?_
        exact ⟨fun h => ⟨⟨⟨hhash, hlist⟩, h.1⟩, h.2⟩, fun h => ⟨h.1.2, h.2⟩⟩
    · rw [if_neg hhash]
      constructor
      · intro h
        cases h
      · exact fun h => absurd h.1.1.1 hhash

theorem reconcile_ok_iff {reference deployed : List (Data × Data)} {languages : Option Data} {artifact : Option Text}
    {host : Host} {d : Discrepancies} :
    (reconcile reference deployed languages artifact host).run.value = .ok d ↔
      Document.verifyRoundTrip artifact (.mapping reference) host = .ok d.referenceCount ∧
        checkHygiene reference = d.warnings ∧
        ∃ checked, checkedLanguages deployed languages = some checked ∧
          compareAll (translatable reference) deployed checked = .ok d.languages := by
  obtain ⟨table, warnings, count⟩ := d
  rw [value_reconcile]
  cases Document.verifyRoundTrip artifact (.mapping reference) host with
  | error f => simp [Except.bind]
  | ok n =>
    cases checkedLanguages deployed languages with
    | none => simp [Except.bind]
    | some checked =>
      cases hall : compareAll (translatable reference) deployed checked with
      | error f => simp [Except.bind, Except.map, hall]
      | ok found =>
        have hparts : (found = table ∧ checkHygiene reference = warnings ∧ n = count) ↔
            n = count ∧ checkHygiene reference = warnings ∧ found = table :=
          ⟨fun ⟨ht, hw, hn⟩ => ⟨hn, hw, ht⟩, fun ⟨hn, hw, ht⟩ => ⟨ht, hw, hn⟩⟩
        simpa [Except.bind, Except.map, hall] using hparts

/-- Every language is compared by the keys with a text alone. -/
theorem reconcile_compared (reference : Table Text Data) (deployed : List (Data × Data)) (languages : Option Data)
    (artifact : Option Text) {d : Discrepancies}
    (h : (reconcile (referencePairs reference) deployed languages artifact).run.value = .ok d) :
    ∃ checked, checkedLanguages deployed languages = some checked ∧
      (∀ e ∈ d.languages.entries, ∃ l ∈ checked, Compared reference (deployedKeys deployed l) e.2) ∧
      ∀ l : Text, .text l ∈ checked →
        ∃ x, d.languages.get? (.text l) = some x ∧ Compared reference (deployedKeys deployed (.text l)) x := by
  obtain ⟨-, -, checked, hchecked, hall⟩ := reconcile_ok_iff.1 h
  have htable := (compareAll_ok_iff.1 hall).2.symm
  refine ⟨checked, hchecked, ?_, ?_⟩
  · rw [htable, Table.ofList]
    refine Table.forall_value_insertAll (p := fun x => ∃ l ∈ checked, Compared reference (deployedKeys deployed l) x)
      (List.forall_mem_nil _) fun e he => ?_
    obtain ⟨l, hl, rfl⟩ := List.mem_map.1 he
    exact ⟨l, hl, compared_difference reference _⟩
  · intro l hl
    refine ⟨_, ?_, compared_difference reference _⟩
    rw [htable]
    exact Table.get?_ofRows (fun _ => Data.beq_text_iff) (fun _ => Data.text_beq_iff) _ hl

def mixedReference : Table Text Data := .ofList [("a", .int 1), ("b", .text "B"), ("c", .null)]

def mixedDeployment : List (Data × Data) := [(.text "de", .ofTexts ["a", "x"]), (.text "fr", .null)]

theorem reconcile_compared_mixed :
    ∃ d x, (reconcile (referencePairs mixedReference) mixedDeployment none none).run.value = .ok d ∧
      d.languages.get? (.text "de") = some x ∧ .text "a" ∉ x.missing ∧ .text "c" ∉ x.missing ∧ .text "b" ∈ x.missing := by
  have hkept : Document.verifyRoundTrip none (.mapping (referencePairs mixedReference)) = .ok 3 :=
    Document.verifyRoundTrip_plain (by decide +kernel) ⟨by decide +kernel, by decide +kernel⟩ rfl none
  obtain ⟨d, hd⟩ : ∃ d, (reconcile (referencePairs mixedReference) mixedDeployment none none).run.value = .ok d := by
    rw [value_reconcile, hkept]
    exact ⟨_, rfl⟩
  obtain ⟨checked, hchecked, -, hlisted⟩ := reconcile_compared mixedReference mixedDeployment none none hd
  obtain rfl := Option.some.inj hchecked
  obtain ⟨x, hx, hcompared⟩ := hlisted "de" (by simp [mixedDeployment])
  refine ⟨d, x, hd, hx, fun ha => ?_, fun hc => ?_, ?_⟩
  · obtain ⟨⟨t, ht⟩, -⟩ := (hcompared.missing "a").1 ha
    cases ht
  · obtain ⟨⟨t, ht⟩, -⟩ := (hcompared.missing "c").1 hc
    cases ht
  · have hkeys : deployedKeys mixedDeployment (.text "de") = [.text "a", .text "x"] := rfl
    refine (hcompared.missing "b").2 ⟨⟨"B", rfl⟩, ?_⟩
    rw [hkeys]
    simp only [List.mem_cons, Data.text.injEq, List.not_mem_nil, or_false]
    decide

/-- A key without a text that is deployed is reported as extra, though the reference has it. -/
theorem reconcile_untranslatable_extra :
    ∃ d, (reconcile (referencePairs (.ofList [("a", .int 1)])) [(.text "de", .ofTexts ["a"])] none none).run.value =
        .ok d ∧
      d.languages.get? (.text "de") = some { missing := [], extra := [.text "a"] } ∧ d.any = true := by
  have hkept : Document.verifyRoundTrip none (.mapping (referencePairs (.ofList [("a", .int 1)]))) = .ok 1 :=
    Document.verifyRoundTrip_plain (by decide +kernel) ⟨by decide +kernel, by decide +kernel⟩ rfl none
  rw [value_reconcile, hkept]
  exact ⟨_, rfl, rfl, rfl⟩

end MessageCatalog.Reconciliation
