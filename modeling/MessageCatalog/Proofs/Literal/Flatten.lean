/-
  MessageCatalog.Proofs.Literal.Flatten — a literal as a table of its texts.

  A key is the path to a text, joined by dots: because an object's name denotes
  something, adding one name to the path so far comes to the same as joining them all.

  Proved: a literal in any layout gives exactly the table of its texts, and exactly the
  keys that break the grammar (`flatten_source`).
-/

import MessageCatalog.Proofs.Key
import MessageCatalog.Proofs.Literal.Scan
import MessageCatalog.Proofs.Table
import MessageCatalog.Proofs.Text

namespace MessageCatalog.Literal

open Source

/-! ## Sorting what was emitted -/

def Emission.entry? : Emission → Option (Text × Text)
  | .leaf _ key value => some (key, value)
  | .tooDeep _ => none

theorem foldl_add (f : Flattened) (es : List Emission) :
    es.foldl Flattened.add f =
      ⟨f.entries.insertAll ((es.filterMap Emission.entry?).filter fun e => Key.isValid e.1),
        f.rejected.addAll (((es.filterMap Emission.entry?).filter fun e => !Key.isValid e.1).map (·.1))⟩ := by
  induction es generalizing f with
  | nil => rfl
  | cons e es ih =>
    rw [List.foldl_cons, ih]
    cases e with
    | tooDeep key => rfl
    | leaf depth key value =>
      by_cases hk : Key.isValid key = true
      · simp [Flattened.add, Emission.entry?, hk, Table.insertAll]
      · simp [Flattened.add, Emission.entry?, hk, Distinct.addAll]

theorem ofEmissions_eq (es : List Emission) :
    Flattened.ofEmissions es = tabulate (es.filterMap Emission.entry?) :=
  foldl_add {} es

theorem flatten_run {limits : Limits} {t : Text} (base : Text) (h : t.length ≤ limits.maxContentLength) :
    (flatten limits base t).run.value = .ok (tabulate ((emissions limits base t).filterMap Emission.entry?)) := by
  rw [← ofEmissions_eq, flatten, if_neg (by omega)]
  by_cases hd : (emissions limits base t).any Emission.isTooDeep = true
  · simp only [hd, if_true]
    rfl
  · simp only [hd]
    rfl

theorem flatten_tooLarge {limits : Limits} {t : Text} (base : Text) (h : limits.maxContentLength < t.length) :
    (flatten limits base t).run.value = .error (.literalTooLarge limits.maxContentLength t.length) := by
  rw [flatten, if_pos h]
  rfl

/-- Whatever was flattened was sorted by the grammar. -/
theorem flatten_ok {limits : Limits} {base t : Text} {f : Flattened}
    (h : (flatten limits base t).run.value = .ok f) :
    f = tabulate ((emissions limits base t).filterMap Emission.entry?) := by
  by_cases hlen : t.length ≤ limits.maxContentLength
  · rw [flatten_run base hlen] at h
    exact (Except.ok.inj h).symm
  · rw [flatten_tooLarge base (Nat.lt_of_not_le hlen)] at h
    cases h

theorem tabulate_valid (es : List (Text × Text)) : ∀ k ∈ (tabulate es).entries.keys, Key.isValid k = true :=
  Table.forall_key_insertAll (fun _ hk => by cases hk) fun _ he => (List.mem_filter.1 he).2

theorem tabulate_invalid (es : List (Text × Text)) :
    ∀ k ∈ (tabulate es).rejected.toList, Key.isValid k = false := by
  refine Distinct.forall_mem_addAll (fun _ hk => by cases hk) fun k hk => ?_
  obtain ⟨e, he, rfl⟩ := List.mem_map.1 hk
  simpa using (List.mem_filter.1 he).2

theorem mem_keys_tabulate {es : List (Text × Text)} {k : Text} :
    k ∈ (tabulate es).entries.keys ↔ Key.isValid k = true ∧ ∃ v, (k, v) ∈ es := by
  have hkeys : (tabulate es).entries.keys = dedup ((es.filter fun e => Key.isValid e.1).map (·.1)) :=
    Table.keys_ofList _
  rw [hkeys, Distinct.mem_dedup_iff fun y => beq_iff_eq]
  simp only [List.mem_map, List.mem_filter, Prod.exists, exists_and_right, exists_eq_right]
  exact and_comm

theorem mem_rejected_tabulate {es : List (Text × Text)} {k : Text} :
    k ∈ (tabulate es).rejected.toList ↔ Key.isValid k = false ∧ ∃ v, (k, v) ∈ es := by
  have hkeys : (tabulate es).rejected.toList = dedup ((es.filter fun e => !Key.isValid e.1).map (·.1)) := rfl
  rw [hkeys, Distinct.mem_dedup_iff fun y => beq_iff_eq]
  simp only [List.mem_map, List.mem_filter, Prod.exists, exists_and_right, exists_eq_right, Bool.not_eq_true']
  exact and_comm

theorem tabulate_from {p : Text → Prop} {es : List (Text × Text)} (h : ∀ e ∈ es, p e.1) :
    ∀ k ∈ (tabulate es).entries.keys, p k :=
  Table.forall_key_insertAll (fun _ hk => by cases hk) fun e he => h e (List.mem_filter.1 he).1

/-! ## Paths -/

theorem under_below {base : Text} (h : base ≠ []) (k : Text) :
    Key.under base k = base ++ ('.' : Code) :: k := by
  cases base with
  | nil => exact absurd rfl h
  | cons b bs => rfl

/-- Whatever the text, its keys are below the base. -/
theorem scan_below (limits : Limits) {base : Text} (h : base ≠ []) (depth : Nat) (t : Text) :
    ∀ e ∈ (scan limits base depth t).filterMap Emission.entry?, ∃ k, e.1 = base ++ ('.' : Code) :: k := by
  fun_induction scan limits base depth t with
  | case1 => intro e he; cases he
  | case2 _ _ _ _ _ ih => exact ih h
  | case3 => intro e he; cases he
  | case4 base depth _ name _ _ _ key _ close _ ih₂ ih₁ =>
    intro e he
    have hkey : key = base ++ ('.' : Code) :: name := under_below h name
    rw [List.filterMap_append] at he
    rcases List.mem_append.1 he with he | he
    · split at he
      · cases he
      · obtain ⟨k, hk⟩ := ih₂ (by simp [hkey]) e he
        exact ⟨name ++ ('.' : Code) :: k, by simp [hk, hkey]⟩
    · exact ih₁ h e he
  | case5 base depth _ name _ _ _ key _ _ reading ih =>
    intro e he
    rw [List.filterMap_append] at he
    rcases List.mem_append.1 he with he | he
    · cases hv : reading.value with
      | none => simp [hv] at he
      | some v =>
        obtain rfl : e = (key, v) := by simpa [hv, Emission.entry?] using he
        exact ⟨name, under_below h name⟩
    · exact ih h e he
  | case6 _ _ _ _ _ _ _ _ _ ih => exact ih h

theorem emissions_below (limits : Limits) {base : Text} (h : base ≠ []) (t : Text) :
    ∀ e ∈ (emissions limits base t).filterMap Emission.entry?, ∃ k, e.1 = base ++ ('.' : Code) :: k := by
  rw [emissions]
  split
  · intro e he; cases he
  · exact scan_below limits h 0 _

theorem isValid_path {names : List Text} (hne : names ≠ []) (h : ∀ n ∈ names, Key.isValid n = true) :
    Key.isValid (Text.joinWith "." names) = true := by
  induction names with
  | nil => exact absurd rfl hne
  | cons n ns ih =>
    obtain ⟨hn, hns⟩ := List.forall_mem_cons.1 h
    cases ns with
    | nil => rwa [show Text.joinWith "." [n] = n by simp [Text.joinWith]]
    | cons m ns =>
      have hjoin : Text.joinWith "." (n :: m :: ns) = n ++ ('.' : Code) :: Text.joinWith "." (m :: ns) :=
        Text.joinWith_cons (by simp)
      rw [hjoin, Key.isValid_join, hn, ih (by simp) hns]
      rfl

theorem under_path {above : List Text} (h : ∀ n ∈ above, n ≠ []) (base name : Text) :
    Key.under (above.foldl Key.under base) name = Key.under base (Text.joinWith "." (above ++ [name])) := by
  induction above generalizing base with
  | nil => simp [Text.joinWith]
  | cons a above ih =>
    have ha : a ≠ [] := h a (by simp)
    rw [List.foldl_cons, ih fun n hn => h n (List.mem_cons_of_mem a hn), List.cons_append,
      Text.joinWith_cons (by simp)]
    cases base with
    | nil => simp [Key.under, ha]; rfl
    | cons b bs => simp [Key.under]; rfl

mutual

theorem length_texts (m : Members) (above : List Text) : ∀ e ∈ m.texts above, above.length < e.path.length := by
  match m with
  | .done gap => intro e he; cases he
  | .leaf head value tail =>
    intro e he
    rw [Members.texts] at he
    rcases List.mem_append.1 he with he | he
    · cases hv : value.denoted? with
      | none => simp [hv] at he
      | some v =>
        obtain rfl : e = ⟨above ++ [head.name.denoted], v⟩ := by simpa [hv] using he
        simp
    · exact length_tailTexts tail above e he
  | .object head _ inner tail =>
    intro e he
    rw [Members.texts] at he
    rcases List.mem_append.1 he with he | he
    · have := length_texts inner (above ++ [head.name.denoted]) e he
      rw [List.length_append] at this
      omega
    · exact length_tailTexts tail above e he

theorem length_tailTexts (l : Tail) (above : List Text) :
    ∀ e ∈ l.texts above, above.length < e.path.length := by
  match l with
  | .last gap => intro e he; cases he
  | .comma gap rest => exact length_texts rest above

end

theorem keyed_append (limits : Limits) (base : Text) (es fs : List Entry) :
    keyed limits base (es ++ fs) = keyed limits base es ++ keyed limits base fs := by
  simp [keyed]

theorem keyed_tooDeep {limits : Limits} {es : List Entry} (h : ∀ e ∈ es, limits.maxDepth + 1 < e.path.length)
    (base : Text) : keyed limits base es = [] := by
  have : (es.filter fun e => e.path.length ≤ limits.maxDepth + 1) = [] := by
    refine List.filter_eq_nil_iff.2 fun e he => ?_
    have := h e he
    simp only [decide_eq_true_eq]
    omega
  rw [keyed, this, List.map_nil]

mutual

/-- What members emit at the object that `above` leads to. -/
theorem members_entries (limits : Limits) (m : Members) {above : List Text} (h : ∀ n ∈ above, n ≠ [])
    (hd : above.length ≤ limits.maxDepth) (base : Text) :
    (m.emissions limits (above.foldl Key.under base) above.length).filterMap Emission.entry? =
      keyed limits base (m.texts above) := by
  match m with
  | .done gap => rfl
  | .leaf head value tail =>
    rw [Members.emissions, Members.texts, List.filterMap_append, keyed_append, tail_entries limits tail h hd]
    congr 1
    cases value.denoted? with
    | none => rfl
    | some v => simp [Emission.entry?, keyed, under_path h, hd]
  | .object head named inner tail =>
    rw [Members.emissions, Members.texts, List.filterMap_append, keyed_append, tail_entries limits tail h hd]
    congr 1
    by_cases hdeep : limits.maxDepth < above.length + 1
    · -- what is in an object that is too deep is too deep itself
      have hall : ∀ e ∈ inner.texts (above ++ [head.name.denoted]), limits.maxDepth + 1 < e.path.length := by
        intro e he
        have := length_texts inner _ e he
        rw [List.length_append, List.length_singleton] at this
        omega
      rw [if_pos hdeep, keyed_tooDeep hall]
      rfl
    · have h' : ∀ n ∈ above ++ [head.name.denoted], n ≠ [] := by
        intro n hn
        rcases List.mem_append.1 hn with hn | hn
        · exact h n hn
        · rw [List.mem_singleton.1 hn]
          exact named
      rw [if_neg hdeep]
      have := members_entries limits inner h' (by simp; omega) base
      simpa using this

theorem tail_entries (limits : Limits) (l : Tail) {above : List Text} (h : ∀ n ∈ above, n ≠ [])
    (hd : above.length ≤ limits.maxDepth) (base : Text) :
    (l.emissions limits (above.foldl Key.under base) above.length).filterMap Emission.entry? =
      keyed limits base (l.texts above) := by
  match l with
  | .last gap => rfl
  | .comma gap rest => exact members_entries limits rest h hd base

end

/-! ## Any layout -/

def Source.Members.source (before : Gap) (m : Members) (after : Text) : Text :=
  before.print ++ ('{' : Code) :: (m.print ++ ('}' : Code) :: after)

/-- The scan of a literal finds the texts in it and the names that lead to them. -/
theorem source_entries {limits : Limits} {m : Members} (hm : m.fits limits = true) (base : Text) (before : Gap)
    (after : Text) :
    (emissions limits base (m.source before after)).filterMap Emission.entry? =
      keyed limits base (m.texts []) := by
  have hall : ∀ n ∈ ([] : List Text), n ≠ [] := by simp
  rw [Members.source, emissions_source hm]
  exact members_entries limits m hall (Nat.zero_le _) base

/-- In any layout a literal gives the table of its texts, the last of each key in the place
of the first, and the keys that break the grammar, once each. -/
theorem flatten_source (limits : Limits) (base : Text) (before : Gap) (m : Members) (after : Text)
    (hm : m.fits limits = true) (hlen : (m.source before after).length ≤ limits.maxContentLength) :
    (flatten limits base (m.source before after)).run.value = .ok (tabulate (keyed limits base (m.texts []))) := by
  rw [flatten_run base hlen, source_entries hm]

def Source.sample : Members :=
  .object ⟨[.line "x: 'y' \x7b" (by decide)], .quoted ⟨'"', "\\x61b", rfl, by decide +kernel⟩ rfl, [], [.space]⟩
    (by decide +kernel)
    (.leaf ⟨[], .bare 'c' [] rfl rfl, [], []⟩
      (.text (.single "it\\'s \x7b" (by decide +kernel))
        [⟨[], [.block "," (by decide)], ⟨'`', "\x7d", rfl, by decide +kernel⟩⟩])
      (.comma [] (.leaf ⟨[], .bare 'd' [] rfl rfl, [], []⟩
        (.other ⟨.code 'f' rfl (.group .round (.string ⟨'"', ")", rfl, by decide +kernel⟩ .none) .none), rfl, rfl⟩)
        (.last []))))
    (.comma [] (.done [.newline]))

theorem flatten_source_sample :
    (flatten {} "z" "\x7b//x: 'y' \x7b\n\"\\x61b\": \x7bc:'it\\'s \x7b'+/*,*/`\x7d`,d:f(\")\")\x7d,\n\x7d;").run.value =
      .ok (tabulate [("z.ab.c", "it's \x7b\x7d")]) := by
  have hsource : Source.sample.source [] ";" =
      "\x7b//x: 'y' \x7b\n\"\\x61b\": \x7bc:'it\\'s \x7b'+/*,*/`\x7d`,d:f(\")\")\x7d,\n\x7d;" := by decide +kernel
  have hkeyed :
      keyed {} "z" (Source.sample.texts []) = ([("z.ab.c", "it's \x7b\x7d")] : List (Text × Text)) := by
    decide +kernel
  rw [← hsource, ← hkeyed]
  exact flatten_source {} "z" [] Source.sample ";" (by decide +kernel) (by decide +kernel)

end MessageCatalog.Literal
