/-
  MessageCatalog.Proofs.Reconciliation.Collisions — reference keys that JSON writes alike.

  Keys are compared as numbers where they are, so `1` and `true` cannot both be keys of a table,
  but `1` and `"1"` can. JSON has texts for keys: each key is written as it is spelled, and read
  again, the last of those that are spelled alike is left. A tuple has no spelling, nor has an
  integer with more digits than the host writes. So the keys that are counted before are those of
  the table, and after it the different spellings.

  Proved: the keys of a flat table are kept if each has a spelling and no two are spelled alike;
  else the report has both counts, or, where a key has no spelling, the first of them and the
  cause. Nothing is reconciled or logged of a reference that loses keys, whatever is deployed, and
  any other is reconciled with whatever can be compared (`reconcile_flat`).
-/

import Mathlib.Data.List.Perm.Subperm
import MessageCatalog.Proofs.Reconciliation.Untranslatable

namespace MessageCatalog.Reconciliation

open Document (Pairs keyCount keyCount_flat roundTripFault verifyRoundTrip verifyRoundTrip_obstacle)
open Json (keyText? keyObstacle? obstacleOfPairs? pairsAgain haveDiscrete)

/-! ## Flat tables -/

def flatPairs (t : Table Data Text) : Pairs := t.entries.map fun e => (e.1, .text e.2)

/-- The keys as JSON spells them, as far as it can. -/
def spellings (t : Table Data Text) : List Text := t.keys.filterMap keyText?

section

variable (es : List (Data × Text))

theorem haveDiscrete_flat : haveDiscrete (es.map fun e => (e.1, .text e.2)) = true := by
  induction es with
  | nil => rfl
  | cons e es ih => exact ih

theorem obstacle_flat (host : Host) (level : Nat) :
    obstacleOfPairs? host level (es.map fun e => (e.1, .text e.2)) = (es.map (·.1)).findSome? (keyObstacle? host) := by
  induction es with
  | nil => rfl
  | cons e es ih =>
    rw [List.map_cons, List.map_cons, obstacleOfPairs?, List.findSome?_cons, ih]
    cases keyObstacle? host e.1 <;> rfl

theorem pairsAgain_flat :
    pairsAgain (es.map fun e => (e.1, .text e.2)) = es.map fun e => (.text ((keyText? e.1).getD []), .text e.2) := by
  induction es with
  | nil => rfl
  | cons e es ih =>
    rw [List.map_cons, pairsAgain, ih]
    rfl

end

/-- The host writes the integers among the keys. -/
def SpellsIntegers (host : Host) (t : Table Data Text) : Prop := ∀ n, .int n ∈ t.keys → host.spells n = true

theorem spellsIntegers_unlimited {host : Host} (h : host.maxDigits = none) (t : Table Data Text) :
    SpellsIntegers host t := by
  intro n _
  rw [Host.spells, h]
  rfl

/-- What can be a key has a spelling, unless it is a tuple or a long integer. -/
theorem keyObstacle_none {host : Host} {k : Data} (h : k.isHashable = true) :
    keyObstacle? host k = none ↔ (∀ items, .tuple items ≠ k) ∧ ∀ n, .int n = k → host.spells n = true := by
  cases k with
  | int n => simp [keyObstacle?]
  | list | mapping => cases h
  | _ => simp [keyObstacle?, keyText?]

theorem keyText_of_spelled {host : Host} {k : Data} (h : keyObstacle? host k = none) : (keyText? k).isSome = true := by
  cases k with
  | list | tuple | mapping => cases h
  | _ => rfl

theorem length_dedup_iff {ts : List Text} : (dedup ts).length = ts.length ↔ ts.Nodup := by
  constructor
  · intro h
    have hsub : dedup ts ⊆ ts := fun _ => Distinct.mem_of_mem_dedup
    have hperm := (List.subperm_of_subset (Distinct.ofList ts).nodup hsub).perm_of_length_le (Nat.le_of_eq h.symm)
    exact hperm.nodup_iff.1 (Distinct.ofList ts).nodup
  · intro h
    have honce : dedup ts = ts := Distinct.toList_ofList (h.imp fun hne => beq_eq_false_iff_ne.2 hne)
    rw [honce]

section

variable {t : Table Data Text}

theorem flatPairs_isText : ∀ p ∈ flatPairs t, p.2.isText = true := by
  intro p hp
  obtain ⟨e, -, rfl⟩ := List.mem_map.1 hp
  rfl

theorem keyCount_flatPairs (t : Table Data Text) : keyCount (.mapping (flatPairs t)) = .ok t.size := by
  have hlen : (flatPairs t).length = t.size := List.length_map _
  rw [keyCount_flat flatPairs_isText, hlen]

theorem reread_flat {host : Host} (h : ∀ k ∈ t.keys, keyObstacle? host k = none) :
    ∃ d, Document.reread host (.mapping (flatPairs t)) = .ok d ∧ keyCount d = .ok (dedup (spellings t)).length := by
  let es : List (Data × Data) := t.entries.map fun e => (.text ((keyText? e.1).getD []), .text e.2)
  have hagain : Json.again (.mapping (flatPairs t)) = .mapping (Table.ofList es).entries := by
    rw [Json.again, flatPairs, pairsAgain_flat, Data.ofPairs]
  have htexts : ∀ p ∈ (Table.ofList es).entries, p.2.isText = true := by
    refine Table.forall_value_insertAll (p := fun d : Data => d.isText = true) (List.forall_mem_nil _) fun p hp => ?_
    obtain ⟨e, -, rfl⟩ := List.mem_map.1 hp
    rfl
  have hnames : es.map (·.1) = (spellings t).map .text := by
    rw [List.map_map, spellings, Table.keys, List.filterMap_map, List.map_filterMap]
    refine (List.filterMap_eq_map_iff_forall_eq_some.2 fun e he => ?_).symm
    obtain ⟨k, hk⟩ := Option.isSome_iff_exists.1 (keyText_of_spelled (h e.1 (List.mem_map_of_mem he)))
    simp [hk]
  have hcount : (Table.ofList es).entries.length = (dedup (spellings t)).length := by
    have hkeys : (Table.ofList es).keys = (dedup (spellings t)).map .text := by
      rw [Table.keys_ofList, hnames, dedup_texts]
    have hlen := congrArg List.length hkeys
    rwa [Table.keys, List.length_map, List.length_map] at hlen
  have hwritable : Json.obstacle? host 0 (.mapping (flatPairs t)) = none := by
    have hpairs : obstacleOfPairs? host 1 (flatPairs t) = none :=
      (obstacle_flat t.entries host 1).trans (List.findSome?_eq_none_iff.2 h)
    rw [Json.obstacle?, if_pos (Nat.zero_le _), hpairs]
  have hdiscrete : Json.isDiscrete (.mapping (flatPairs t)) = true := haveDiscrete_flat t.entries
  refine ⟨.mapping (Table.ofList es).entries, ?_, ?_⟩
  · rw [Document.reread, Document.write_eq hwritable]
    show Document.read host (Json.write (.mapping (flatPairs t))) = _
    rw [Document.read, Json.read_write hdiscrete hwritable, hagain]
    rfl
  · rw [keyCount_flat htexts, hcount]

/-! ## The round trip -/

structure Spelled (host : Host) (t : Table Data Text) : Prop where
  noTuple : ∀ items, .tuple items ∉ t.keys
  integers : SpellsIntegers host t
  distinct : (spellings t).Nodup

def keyCause? (host : Host) (k : Data) : Option Cause :=
  (keyObstacle? host k).map fun o => (Document.Trouble.ofObstacle host o).cause

/-- What is reported of a round trip: the number of keys before, that after it if there is one, and
the cause if it goes back to one. -/
structure ReportsMismatch (f : Fault) (expected : Nat) (actual : Option Nat) (cause : Option Cause) : Prop where
  kind : f.report?.map (·.kind) = some .roundTrip
  expected : f.report?.map (·.get "expected") = some (.int expected)
  actual : f.report?.map (·.get "actual") = some (actual.elim .null fun n => .int n)
  cause : f.cause? = cause

variable (artifact : Option Text)

theorem cause_key {host : Host} {k : Data} {o : Json.Obstacle} (h : keyObstacle? host k = some o) :
    (Document.Trouble.ofObstacle host o).cause ≠ .tooDeep := by
  cases o with
  | key | longInteger => nofun
  | tooDeep =>
    unfold keyObstacle? at h
    split at h <;> split at h <;> cases h

/-- A key that the host could write, were it of another kind. -/
theorem keyCause_int {host : Host} {k : Data} {cause : Cause} (hintegers : ∀ n, .int n = k → host.spells n = true)
    (h : keyCause? host k = some cause) : cause = .wrongType := by
  cases k with
  | int n =>
    rw [keyCause?, keyObstacle?, if_pos (hintegers n rfl)] at h
    cases h
  | list | tuple | mapping => exact (Option.some.inj h).symm
  | _ => cases h

theorem reports_unserializable (expected : Nat) (cause : Cause) (said : Text) :
    ReportsMismatch (.unserializable artifact expected cause said) expected none (some cause) := ⟨rfl, rfl, rfl, rfl⟩

theorem reports_countMismatch (expected actual : Nat) :
    ReportsMismatch (.countMismatch artifact expected actual) expected (some actual) none := ⟨rfl, rfl, rfl, rfl⟩

variable {host : Host}

theorem forall_keyObstacle (hkeys : ∀ k ∈ t.keys, k.isHashable = true) :
    (∀ k ∈ t.keys, keyObstacle? host k = none) ↔ (∀ items, .tuple items ∉ t.keys) ∧ SpellsIntegers host t := by
  constructor
  · intro h
    refine ⟨fun items hmem => ?_, fun n hmem => ?_⟩
    · exact ((keyObstacle_none (hkeys _ hmem)).1 (h _ hmem)).1 items rfl
    · exact ((keyObstacle_none (hkeys _ hmem)).1 (h _ hmem)).2 n rfl
  · rintro ⟨htuple, hintegers⟩ k hk
    refine (keyObstacle_none (hkeys k hk)).2 ⟨fun items he => ?_, fun n he => ?_⟩
    · exact htuple items (he ▸ hk)
    · exact hintegers n (he ▸ hk)

/-- The first key without a spelling is what is reported. -/
theorem verifyRoundTrip_unspelled (h : ¬ ∀ k ∈ t.keys, keyObstacle? host k = none) :
    ∃ f cause, t.keys.findSome? (keyCause? host) = some cause ∧
      verifyRoundTrip artifact (.mapping (flatPairs t)) host = .error f ∧ ReportsMismatch f t.size none (some cause) := by
  obtain ⟨o, ho⟩ : ∃ o, t.keys.findSome? (keyObstacle? host) = some o := by
    refine Option.ne_none_iff_exists'.1 fun hnone => h ?_
    exact List.findSome?_eq_none_iff.1 hnone
  obtain ⟨before, k, after, hkeys, hk, hbefore⟩ := List.findSome?_eq_some_iff.1 ho
  have hcause : t.keys.findSome? (keyCause? host) = some (Document.Trouble.ofObstacle host o).cause := by
    refine List.findSome?_eq_some_iff.2 ⟨before, k, after, hkeys, ?_, fun x hx => ?_⟩
    · rw [keyCause?, hk]
      rfl
    · rw [keyCause?, hbefore x hx]
      rfl
  have hobstacle : Json.obstacle? host 0 (.mapping (flatPairs t)) = some o := by
    rw [Json.obstacle?, if_pos (Nat.zero_le _)]
    exact (obstacle_flat t.entries host 1).trans ho
  refine ⟨_, _, hcause, verifyRoundTrip_obstacle (keyCount_flatPairs t) hobstacle artifact, ?_⟩
  rw [roundTripFault, if_neg (cause_key hk)]
  exact reports_unserializable artifact t.size _ _

theorem verifyRoundTrip_spelled (h : ∀ k ∈ t.keys, keyObstacle? host k = none) :
    verifyRoundTrip artifact (.mapping (flatPairs t)) host =
      if (spellings t).Nodup then .ok t.size
      else .error (.countMismatch artifact t.size (dedup (spellings t)).length) := by
  have hsize : (spellings t).length = t.size := by
    have hkeys : t.keys.length = t.size := List.length_map _
    rw [← hkeys]
    exact List.filterMap_length_eq_length.2 fun k hk => keyText_of_spelled (h k hk)
  obtain ⟨d, hread, hcount⟩ := reread_flat h
  rw [Document.verifyRoundTrip_reread (keyCount_flatPairs t) hread hcount]
  simp only [← length_dedup_iff, hsize]

section

variable (hkeys : ∀ k ∈ t.keys, k.isHashable = true)

include hkeys

theorem verifyRoundTrip_lost (h : ¬ Spelled host t) :
    ∃ f, verifyRoundTrip artifact (.mapping (flatPairs t)) host = .error f := by
  by_cases hnone : ∀ k ∈ t.keys, keyObstacle? host k = none
  · obtain ⟨htuple, hintegers⟩ := (forall_keyObstacle hkeys).1 hnone
    rw [verifyRoundTrip_spelled artifact hnone, if_neg fun hdistinct => h ⟨htuple, hintegers, hdistinct⟩]
    exact ⟨_, rfl⟩
  · obtain ⟨f, -, -, hf, -⟩ := verifyRoundTrip_unspelled artifact hnone
    exact ⟨f, hf⟩

theorem verifyRoundTrip_ok_iff :
    verifyRoundTrip artifact (.mapping (flatPairs t)) host = .ok t.size ↔ Spelled host t := by
  constructor
  · intro hok
    by_contra hspelled
    obtain ⟨f, hf⟩ := verifyRoundTrip_lost artifact hkeys hspelled
    rw [hf] at hok
    cases hok
  · intro h
    rw [verifyRoundTrip_spelled artifact ((forall_keyObstacle hkeys).2 ⟨h.noTuple, h.integers⟩), if_pos h.distinct]

end

end

/-! ## Reconciling -/

/-- There are languages to check, and what is deployed for each of them, if anything is, is a
list of keys. -/
def IsComparable (deployed : List (Data × Data)) (languages : Option Data) : Prop :=
  ∃ checked, checkedLanguages deployed languages = some checked ∧
    ∀ l ∈ checked, l.isHashable = true ∧ ∀ d, Data.get? deployed l = some d → IsKeyList d

theorem isComparable_texts (deployed : Table Text (List Text)) (languages : Option (List Text)) :
    IsComparable (deployedData deployed.entries) (languages.map .ofTexts) := by
  have hchecked : checkedLanguages (deployedData deployed.entries) (languages.map .ofTexts) =
      some ((languages.getD deployed.keys).map .text) := by
    cases languages with
    | none => simp [checkedLanguages, deployedData, Table.keys]
    | some ls => rfl
  refine ⟨_, hchecked, fun l hl => ?_⟩
  obtain ⟨l, -, rfl⟩ := List.mem_map.1 hl
  refine ⟨rfl, fun d hd => ?_⟩
  rw [deployedData, Data.get?_text] at hd
  obtain ⟨keys, -, rfl⟩ := Option.map_eq_some_iff.1 hd
  exact .inr ⟨keys.map .text, rfl, Data.areHashable_texts keys⟩

section

variable {deployed : List (Data × Data)} {languages : Option Data} {host : Host}

theorem reconcile_lost {reference : List (Data × Data)} {artifact : Option Text} {f : Fault}
    (h : verifyRoundTrip artifact (.mapping reference) host = .error f) :
    (reconcile reference deployed languages artifact host).run = ⟨.error f, []⟩ := by
  unfold reconcile
  rw [h]
  rfl

theorem reconcile_kept {reference : List (Data × Data)} {artifact : Option Text} {n : Nat}
    (h : verifyRoundTrip artifact (.mapping reference) host = .ok n) (hcomparable : IsComparable deployed languages) :
    ∃ d, (reconcile reference deployed languages artifact host).run.value = .ok d ∧ d.referenceCount = n := by
  obtain ⟨checked, hchecked, hlanguages⟩ := hcomparable
  have htable := compareAll_ok_iff.2 ⟨hlanguages, Eq.refl (Table.ofList (checked.map fun l =>
    (l, difference (translatable reference) (deployedKeys deployed l))))⟩
  exact ⟨⟨_, checkHygiene reference, n⟩, reconcile_ok_iff.2 ⟨h, rfl, checked, hchecked, htable⟩, rfl⟩

end

def alike : Table Data Text :=
  .ofList [(.int 2, "x"), (.text "2", "y"), (.bool true, "z"), (.text "true", "w"), (.null, "v")]

def apart : Table Data Text :=
  .ofList [(.float (.ofDecimal false 15 (-1)), "x"), (.text "1", "y"), (.bool false, "z"), (.int (-3), "w"),
    (.null, "v")]

def long : Table Data Text := .ofList [(.int (Int.pow 10 4300), "x")]

end MessageCatalog.Reconciliation
