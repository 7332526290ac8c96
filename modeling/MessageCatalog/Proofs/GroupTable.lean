/-
  MessageCatalog.Proofs.GroupTable — what a run of merges leaves in the tables.

  A file is merged into one group (`target?`) or skipped. Of a group, a merge reads and
  changes only what the table holds of that group, its `slot`; so what becomes of a group
  is a run of its own, over the files of that group (`slot_run`).

  Proved over every run, from an empty table:
  - `kept`: what a file says of a key is in its group's table or was replaced by a later
    file of that group, unless the file was skipped and is listed as such.
  - `noted`: a text that was replaced has its key among the overwritten ones.
  - `overwritten_run`: the overwritten keys are those whose text changed, merge by merge,
    as many as there were changes (`length_changes`).
  - `groups_run`, `keys_run`: groups and keys stand in the order of their first mention.
  - `slot_congr`: other groups' files have no part in any of this.
  The reference of a batch is such a run (`mergeAll_run`).
-/

import Mathlib.Data.List.Induction
import MessageCatalog.Proofs.Attempt
import MessageCatalog.Proofs.Table
import MessageCatalog.Reference

namespace MessageCatalog.GroupTable

open Extraction (Extracted)

/-! ## Runs -/

/-- The group that a file is merged into. A file without a group, or with a reserved name
for one, is skipped. -/
def target? (x : Extracted) : Option Text := (groupName x).filter fun n => !n.isEmpty && !Plugin.isReserved n

def start (sampleSize : Int) : GroupTable := { diagnostics := { sampleSize } }

def next (t : GroupTable) (x : Extracted) : GroupTable := (t.merge x).value.1

/-- One file after another. -/
def run (t : GroupTable) (xs : List Extracted) : GroupTable := xs.foldl next t

@[simp] theorem run_nil (t : GroupTable) : t.run [] = t := rfl

@[simp] theorem run_cons (t : GroupTable) (x : Extracted) (xs : List Extracted) :
    t.run (x :: xs) = (t.next x).run xs := rfl

theorem run_append (t : GroupTable) (xs ys : List Extracted) : t.run (xs ++ ys) = (t.run xs).run ys :=
  List.foldl_append

/-! ## What is seen of a table -/

def stored (t : GroupTable) (g k : Text) : Option Text := (t.groups.get? g).bind (·.get? k)

def keysOf (t : GroupTable) (g : Text) : List Text := (t.groups.get? g).elim [] Table.keys

def overwritten (t : GroupTable) (g : Text) : List Text := (t.diagnostics.overwrites.get? g).getD []

def given (x : Extracted) (g k : Text) : Option Text := if target? x = some g then x.keys.get? k else none

/-- `w` is what the last file says of a key, of those in its group that have the key. -/
def LastWrite (xs : List Extracted) (g k w : Text) : Prop :=
  ∃ before x after, xs = before ++ x :: after ∧ given x g k = some w ∧ ∀ y ∈ after, given y g k = none

/-- The keys of a group whose text a file changes, in the order of the file. -/
def changed (t : GroupTable) (g : Text) (x : Extracted) : List Text :=
  x.keys.keys.filter fun k => (t.stored g k).isSome && (t.next x).stored g k != t.stored g k

def changes (g : Text) (t : GroupTable) : List Extracted → List Text
  | [] => []
  | x :: xs => t.changed g x ++ changes g (t.next x) xs

/-- How often a text of a group is another one after a merge. -/
def changeCount (g : Text) (t : GroupTable) : List Extracted → Nat
  | [] => 0
  | x :: xs =>
    (t.keysOf g).countP (fun k => (t.next x).stored g k != t.stored g k) + changeCount g (t.next x) xs

/-! ## One merge -/

/-- What a table holds of one group. -/
structure Slot where
  table : Option (Table Text Text)
  overwrites : Option (List Text)

def slot (t : GroupTable) (g : Text) : Slot := ⟨t.groups.get? g, t.diagnostics.overwrites.get? g⟩

def Slot.merge (s : Slot) (x : Extracted) : Slot :=
  let table := s.table.getD .empty
  let keys := changedKeys table x.keys.entries
  { table := some (table.insertAll x.keys.entries)
    overwrites := if keys.isEmpty then s.overwrites else some (s.overwrites.getD [] ++ keys) }

theorem recordOverwrite_value (d : Diagnostics) (g file : Text) (keys : List Text) :
    (d.recordOverwrite g file keys).value =
      { d with
        overwrites := if keys.isEmpty then d.overwrites else d.overwrites.alter g fun old => old.getD [] ++ keys } := by
  rw [Diagnostics.recordOverwrite]
  split
  · rfl
  · rfl

/-- What a merge can do: skip the file and say so, or write its entries over its group. -/
theorem next_cases (t : GroupTable) (x : Extracted) :
    (target? x = none ∧ ∃ reason, t.next x =
      { t with diagnostics := { t.diagnostics with skipped := t.diagnostics.skipped ++ [⟨x.file, reason⟩] } }) ∨
    ∃ g, target? x = some g ∧ g ≠ [] ∧ Plugin.isReserved g = false ∧
      (t.next x).groups = t.groups.insert g (((t.groups.get? g).getD .empty).insertAll x.keys.entries) ∧
      (t.next x).diagnostics.skipped = t.diagnostics.skipped ∧
      (t.next x).diagnostics.overwrites =
        if (changedKeys ((t.groups.get? g).getD .empty) x.keys.entries).isEmpty then t.diagnostics.overwrites
        else t.diagnostics.overwrites.alter g fun old =>
          old.getD [] ++ changedKeys ((t.groups.get? g).getD .empty) x.keys.entries := by
  unfold next merge target?
  rcases hname : groupName x with _ | name
  · exact .inl ⟨rfl, _, rfl⟩
  rcases name with _ | ⟨c, r⟩
  · exact .inl ⟨rfl, _, rfl⟩
  by_cases hr : Plugin.isReserved (c :: r) = true
  · refine .inl ⟨?_, ?_⟩
    · simp [Option.filter, hr]
    · simp only [refusal, hr, if_true]
      exact ⟨_, rfl⟩
  · refine .inr ⟨c :: r, ?_, List.cons_ne_nil c r, Bool.eq_false_iff.2 hr, ?_⟩
    · simp [Option.filter, hr]
    · simp only [refusal, hr, Bool.false_eq_true, if_false, Option.getD_some, Logged.value_bind,
        recordOverwrite_value, Logged.value_pure, and_self]

theorem slot_next (t : GroupTable) (x : Extracted) (g : Text) :
    (t.next x).slot g = if target? x = some g then (t.slot g).merge x else t.slot g := by
  rcases next_cases t x with ⟨hx, reason, ht⟩ | ⟨h, hx, -, -, hgroups, -, hover⟩
  · rw [hx, ht, if_neg (by simp)]
    rfl
  · rw [hx, slot, hgroups, hover, Table.get?_insert]
    by_cases hg : h = g
    · subst hg
      rw [if_pos (beq_self_eq_true h), if_pos rfl, Slot.merge, slot]
      simp only [Slot.mk.injEq, true_and]
      split
      · rfl
      · rw [Table.alter, Table.get?_insert, if_pos (beq_self_eq_true h)]
    · have hne : ¬ (h == g) = true := by simpa using hg
      rw [if_neg hne, if_neg fun e => hg (Option.some.inj e), slot]
      simp only [Slot.mk.injEq, true_and]
      split
      · rfl
      · rw [Table.alter, Table.get?_insert, if_neg hne]

theorem stored_next (t : GroupTable) (x : Extracted) (g k : Text) :
    (t.next x).stored g k = (given x g k).or (t.stored g k) := by
  have hslot : (t.next x).stored g k = (((t.next x).slot g).table).bind (·.get? k) := rfl
  rw [hslot, slot_next, given]
  by_cases hx : target? x = some g
  · rw [if_pos hx, if_pos hx]
    show ((((t.groups.get? g).getD .empty).insertAll x.keys.entries).get? k) = _
    rw [Table.get?_insertAll, stored]
    cases t.groups.get? g <;> rfl
  · rw [if_neg hx, if_neg hx]
    rfl

/-! ## Overwritten keys -/

/-- A merge lists the keys whose text it changes. -/
theorem overwritten_next (t : GroupTable) (x : Extracted) (g : Text) :
    (t.next x).overwritten g = t.overwritten g ++ t.changed g x := by
  have hslot : (t.next x).overwritten g = ((t.next x).slot g).overwrites.getD [] := rfl
  rw [hslot, slot_next]
  by_cases hx : target? x = some g
  · have hkeys : changedKeys ((t.groups.get? g).getD .empty) x.keys.entries = t.changed g x := by
      rw [changed, changedKeys, Table.keys, List.filter_map]
      refine congrArg (List.map _) (List.filter_congr fun e he => ?_)
      have hgiven : given x g e.1 = some e.2 := by rw [given, if_pos hx, Table.get?_of_mem he]
      have hstored : ((t.groups.get? g).getD .empty).get? e.1 = t.stored g e.1 := by
        rw [stored]
        cases t.groups.get? g <;> rfl
      rw [Function.comp_apply, stored_next, hgiven, hstored, Option.some_or]
      cases t.stored g e.1 with
      | none => rfl
      | some u => simp [bne, BEq.comm (a := u)]
    rw [if_pos hx, Slot.merge]
    simp only [slot, hkeys]
    split
    · rename_i hnil
      rw [List.isEmpty_iff.1 hnil, List.append_nil]
      rfl
    · rfl
  · have hnone : t.changed g x = [] := by
      refine List.filter_eq_nil_iff.2 fun k _ => ?_
      rw [stored_next, given, if_neg hx, Option.none_or]
      simp
    rw [if_neg hx, hnone, List.append_nil]
    rfl

theorem overwritten_run (t : GroupTable) (xs : List Extracted) (g : Text) :
    (t.run xs).overwritten g = t.overwritten g ++ changes g t xs := by
  induction xs generalizing t with
  | nil => rw [run_nil, changes, List.append_nil]
  | cons x xs ih => rw [run_cons, ih, overwritten_next, changes, List.append_assoc]

theorem mem_keysOf {t : GroupTable} {g k : Text} : k ∈ t.keysOf g ↔ (t.stored g k).isSome = true := by
  rw [keysOf, stored]
  cases t.groups.get? g with
  | none => simp
  | some table => exact Table.mem_keys_iff

theorem keysOf_nodup (t : GroupTable) (g : Text) : (t.keysOf g).Nodup := by
  rw [keysOf]
  cases t.groups.get? g with
  | none => exact List.nodup_nil
  | some table => exact table.keys_nodup

theorem length_changed (t : GroupTable) (g : Text) (x : Extracted) :
    (t.changed g x).length = (t.keysOf g).countP fun k => (t.next x).stored g k != t.stored g k := by
  have hnodup : (t.changed g x).Nodup := x.keys.keys_nodup.filter _
  have hmem : ∀ k, k ∈ t.changed g x ↔
      k ∈ (t.keysOf g).filter fun k => (t.next x).stored g k != t.stored g k := by
    intro k
    rw [changed, List.mem_filter, List.mem_filter, mem_keysOf, Bool.and_eq_true]
    constructor
    · rintro ⟨-, hold, hnew⟩
      exact ⟨hold, hnew⟩
    · rintro ⟨hold, hnew⟩
      refine ⟨?_, hold, hnew⟩
      -- only what the file says can change a text
      rw [Table.mem_keys_iff]
      rw [stored_next, given] at hnew
      by_cases hx : target? x = some g
      · rw [if_pos hx] at hnew
        cases hk : x.keys.get? k with
        | some v => rfl
        | none => simp [hk] at hnew
      · simp [hx] at hnew
  rw [List.countP_eq_length_filter]
  exact ((List.perm_ext_iff_of_nodup hnodup ((t.keysOf_nodup g).filter _)).2 hmem).length_eq

theorem length_changes (t : GroupTable) (xs : List Extracted) (g : Text) :
    (changes g t xs).length = changeCount g t xs := by
  induction xs generalizing t with
  | nil => rfl
  | cons x xs ih => rw [changes, changeCount, List.length_append, length_changed, ih]

/-- A text whose key is not listed in the end stays as it is. -/
theorem stored_unlisted {t : GroupTable} {xs : List Extracted} {g k v : Text}
    (hk : k ∉ (t.run xs).overwritten g) (hv : t.stored g k = some v) : (t.run xs).stored g k = some v := by
  induction xs generalizing t with
  | nil => exact hv
  | cons x xs ih =>
    rw [run_cons] at hk ⊢
    refine ih hk ?_
    have hstep : k ∉ t.changed g x := by
      intro hmem
      refine hk ?_
      rw [overwritten_run, overwritten_next]
      exact List.mem_append_left _ (List.mem_append_right _ hmem)
    rw [stored_next]
    cases hx : given x g k with
    | none => rwa [Option.none_or]
    | some w =>
      rw [Option.some_or]
      by_cases hw : w = v
      · rw [hw]
      · refine absurd (List.mem_filter.2 ⟨?_, ?_⟩) hstep
        · rw [given] at hx
          split at hx
          · exact Table.mem_keys_iff.2 (by rw [hx]; rfl)
          · cases hx
        · rw [stored_next, hx, hv]
          simpa using hw

/-! ## Last write wins -/

/-- A key has the text of its last write, and none if it was never written. -/
theorem stored_run (sampleSize : Int) (xs : List Extracted) (g k : Text) :
    (∃ w, ((start sampleSize).run xs).stored g k = some w ∧ LastWrite xs g k w) ∨
      ((start sampleSize).run xs).stored g k = none ∧ ∀ x ∈ xs, given x g k = none := by
  induction xs using List.reverseRecOn with
  | nil => exact .inr ⟨rfl, fun x hx => by cases hx⟩
  | append_singleton xs x ih =>
    rw [run_append, run_cons, run_nil, stored_next]
    cases hx : given x g k with
    | some w =>
      refine .inl ⟨w, Option.some_or, xs, x, [], rfl, hx, ?_⟩
      intro y hy
      cases hy
    | none =>
      rw [Option.none_or]
      rcases ih with ⟨w, hw, before, y, after, rfl, hy, hafter⟩ | ⟨hnone, hall⟩
      · refine .inl ⟨w, hw, before, y, after ++ [x], by simp, hy, ?_⟩
        intro z hz
        rcases List.mem_append.1 hz with hz | hz
        · exact hafter z hz
        · rw [List.mem_singleton.1 hz, hx]
      · refine .inr ⟨hnone, ?_⟩
        intro z hz
        rcases List.mem_append.1 hz with hz | hz
        · exact hall z hz
        · rw [List.mem_singleton.1 hz, hx]

/-- A text that is not there any more was replaced, and its key is listed. -/
theorem mem_overwritten {t : GroupTable} {xs : List Extracted} {x : Extracted} (hx : x ∈ xs) {g k v : Text}
    (hv : given x g k = some v) (hlost : (t.run xs).stored g k ≠ some v) : k ∈ (t.run xs).overwritten g := by
  obtain ⟨before, after, rfl⟩ := List.append_of_mem hx
  rw [run_append, run_cons] at hlost ⊢
  refine Classical.not_not.1 fun hk => hlost (stored_unlisted hk ?_)
  rw [stored_next, hv, Option.some_or]

/-! ## Skipped files -/

theorem skipped_run (t : GroupTable) (xs : List Extracted) :
    (t.run xs).diagnostics.skippedFiles =
      t.diagnostics.skippedFiles ++ (xs.filter fun x => target? x = none).map (·.file) := by
  induction xs generalizing t with
  | nil => simp
  | cons x xs ih =>
    rw [run_cons, ih]
    rcases next_cases t x with ⟨hx, reason, ht⟩ | ⟨g, hx, -, -, -, hskip, -⟩
    · rw [ht, List.filter_cons_of_pos (by simp [hx])]
      simp [Diagnostics.skippedFiles]
    · rw [List.filter_cons_of_neg (by simp [hx]), Diagnostics.skippedFiles, hskip, Diagnostics.skippedFiles]

/-! ## Orders -/

theorem groups_run (t : GroupTable) (xs : List Extracted) :
    (t.run xs).groups.keySet = t.groups.keySet.addAll (xs.filterMap target?) := by
  induction xs generalizing t with
  | nil => rfl
  | cons x xs ih =>
    rw [run_cons, ih]
    rcases next_cases t x with ⟨hx, reason, ht⟩ | ⟨g, hx, -, -, hgroups, -, -⟩
    · rw [ht, List.filterMap_cons_none hx]
    · rw [hgroups, Table.keySet_insert, List.filterMap_cons_some hx]
      rfl

theorem target_named {x : Extracted} {g : Text} (h : target? x = some g) : g ≠ [] ∧ Plugin.isReserved g = false := by
  rcases next_cases {} x with ⟨hx, -⟩ | ⟨h', hx, hne, hr, -⟩
  · rw [hx] at h
    cases h
  · rw [hx] at h
    obtain rfl := Option.some.inj h
    exact ⟨hne, hr⟩

/-! ## Each group is a run of its own -/

theorem slot_run (t : GroupTable) (xs : List Extracted) (g : Text) :
    (t.run xs).slot g = (xs.filter fun x => target? x = some g).foldl Slot.merge (t.slot g) := by
  induction xs generalizing t with
  | nil => rfl
  | cons x xs ih =>
    rw [run_cons, ih, slot_next]
    by_cases hx : target? x = some g
    · rw [if_pos hx, List.filter_cons_of_pos (by simpa using hx), List.foldl_cons]
    · rw [if_neg hx, List.filter_cons_of_neg (by simpa using hx)]

theorem slot_congr (t : GroupTable) {xs ys : List Extracted} {g : Text}
    (h : (xs.filter fun x => target? x = some g) = ys.filter fun y => target? y = some g) :
    (t.run xs).slot g = (t.run ys).slot g := by
  rw [slot_run, slot_run, h]

theorem foldl_slot_keys (xs : List Extracted) (s : Slot) {table : Table Text Text}
    (h : (xs.foldl Slot.merge s).table = some table) :
    table.keySet = (s.table.getD .empty).keySet.addAll (xs.flatMap (·.keys.keys)) := by
  induction xs generalizing s with
  | nil =>
    rw [List.foldl_nil] at h
    rw [h]
    rfl
  | cons x xs ih =>
    rw [List.foldl_cons] at h
    rw [ih (s.merge x) h, List.flatMap_cons, Distinct.addAll_append]
    exact congrArg (Distinct.addAll · _) (Table.keySet_insertAll (s.table.getD .empty) x.keys.entries)

theorem keys_run (sampleSize : Int) (xs : List Extracted) {g : Text} {table : Table Text Text}
    (h : ((start sampleSize).run xs).groups.get? g = some table) :
    table.keys = dedup ((xs.filter fun x => target? x = some g).flatMap (·.keys.keys)) := by
  have hslot : (((start sampleSize).run xs).slot g).table = some table := h
  rw [slot_run] at hslot
  exact congrArg Distinct.toList (foldl_slot_keys _ _ hslot)

/-! ## The reference of a batch -/

/-- What is recorded of a file beside its entries has no part in later merges. -/
theorem next_congr {t u : GroupTable} (hg : t.groups = u.groups)
    (ho : t.diagnostics.overwrites = u.diagnostics.overwrites)
    (hs : t.diagnostics.skippedFiles = u.diagnostics.skippedFiles) (x : Extracted) :
    (t.next x).groups = (u.next x).groups ∧
      (t.next x).diagnostics.overwrites = (u.next x).diagnostics.overwrites ∧
      (t.next x).diagnostics.skippedFiles = (u.next x).diagnostics.skippedFiles := by
  rcases next_cases t x with ⟨hx, r, ht⟩ | ⟨g, hx, -, -, htg, hts, hto⟩
  · rcases next_cases u x with ⟨-, r', hu⟩ | ⟨g, hx', -⟩
    · rw [ht, hu]
      refine ⟨hg, ho, ?_⟩
      rw [Diagnostics.skippedFiles, Diagnostics.skippedFiles] at hs ⊢
      rw [List.map_append, List.map_append, hs]
      rfl
    · rw [hx] at hx'
      cases hx'
  · rcases next_cases u x with ⟨hx', -⟩ | ⟨g', hx', -, -, hug, hus, huo⟩
    · rw [hx] at hx'
      cases hx'
    · rw [hx] at hx'
      obtain rfl := Option.some.inj hx'
      refine ⟨by rw [htg, hug, hg], by rw [hto, huo, hg, ho], ?_⟩
      rw [Diagnostics.skippedFiles, hts, Diagnostics.skippedFiles, hus]
      exact hs

theorem mergeAll_run (sampleSize : Int) (xs : List Extracted) :
    (Reference.mergeAll sampleSize xs).value.groups = ((start sampleSize).run xs).groups ∧
      (Reference.mergeAll sampleSize xs).value.diagnostics.overwrites =
        ((start sampleSize).run xs).diagnostics.overwrites ∧
      (Reference.mergeAll sampleSize xs).value.diagnostics.skippedFiles =
        ((start sampleSize).run xs).diagnostics.skippedFiles := by
  have hall : ∀ t u : GroupTable, t.groups = u.groups → t.diagnostics.overwrites = u.diagnostics.overwrites →
      t.diagnostics.skippedFiles = u.diagnostics.skippedFiles →
      (xs.foldl (fun t x => (Reference.add t x).value) t).groups = (u.run xs).groups ∧
      (xs.foldl (fun t x => (Reference.add t x).value) t).diagnostics.overwrites =
        (u.run xs).diagnostics.overwrites ∧
      (xs.foldl (fun t x => (Reference.add t x).value) t).diagnostics.skippedFiles =
        (u.run xs).diagnostics.skippedFiles := by
    induction xs with
    | nil => exact fun t u hg ho hs => ⟨hg, ho, hs⟩
    | cons x xs ih =>
      intro t u hg ho hs
      obtain ⟨d, hd, hdo, hds⟩ : ∃ d : Diagnostics,
          (Reference.add t x).value = next { t with diagnostics := d } x ∧
            d.overwrites = t.diagnostics.overwrites ∧ d.skippedFiles = t.diagnostics.skippedFiles := by
        refine ⟨_, rfl, ?_, ?_⟩
        · rw [Diagnostics.recordInvalidKeys]
          split <;> split <;> rfl
        · rw [Diagnostics.recordInvalidKeys]
          split <;> split <;> rfl
      obtain ⟨hg', ho', hs'⟩ := next_congr (t := { t with diagnostics := d }) hg (hdo.trans ho) (hds.trans hs) x
      rw [List.foldl_cons, hd]
      exact ih _ _ hg' ho' hs'
  rw [Reference.mergeAll, Logged.value_foldlM]
  exact hall _ _ rfl rfl rfl

/-! ## Every run -/

/-- What a table tells of the files that were merged into it. -/
structure History (sampleSize : Int) (xs : List Extracted) (t : GroupTable) : Prop where
  kept : ∀ x ∈ xs, ∀ k v, x.keys.get? k = some v →
    (target? x = none ∧ x.file ∈ t.diagnostics.skippedFiles) ∨
      ∃ g w, target? x = some g ∧ t.stored g k = some w ∧ LastWrite xs g k w
  noted : ∀ x ∈ xs, ∀ g k v, given x g k = some v → t.stored g k ≠ some v → k ∈ t.overwritten g
  listed : ∀ g, t.overwritten g = changes g (start sampleSize) xs
  counted : ∀ g, (t.overwritten g).length = changeCount g (start sampleSize) xs
  named : ∀ g ∈ t.groups.keys, g ≠ [] ∧ Plugin.isReserved g = false
  groupOrder : t.groups.keys = dedup (xs.filterMap target?)
  keyOrder : ∀ g table, t.groups.get? g = some table →
    table.keys = dedup ((xs.filter fun x => target? x = some g).flatMap (·.keys.keys))
  skipped : t.diagnostics.skippedFiles = (xs.filter fun x => target? x = none).map (·.file)

theorem run_history (sampleSize : Int) (xs : List Extracted) :
    History sampleSize xs ((start sampleSize).run xs) := by
  have hskipped : ((start sampleSize).run xs).diagnostics.skippedFiles =
      (xs.filter fun x => target? x = none).map (·.file) := by
    rw [skipped_run]
    rfl
  have hlisted : ∀ g, ((start sampleSize).run xs).overwritten g = changes g (start sampleSize) xs := by
    intro g
    rw [overwritten_run]
    rfl
  have hgroups : ((start sampleSize).run xs).groups.keys = dedup (xs.filterMap target?) :=
    congrArg Distinct.toList (groups_run (start sampleSize) xs)
  refine ⟨?_, ?_, hlisted, ?_, ?_, hgroups, fun g table => keys_run sampleSize xs, hskipped⟩
  · intro x hx k v hv
    cases ht : target? x with
    | none =>
      refine .inl ⟨rfl, ?_⟩
      rw [hskipped]
      exact List.mem_map_of_mem (List.mem_filter.2 ⟨hx, by simpa using ht⟩)
    | some g =>
      have hgiven : given x g k = some v := by rwa [given, if_pos ht]
      rcases stored_run sampleSize xs g k with ⟨w, hw, hlast⟩ | ⟨-, hall⟩
      · exact .inr ⟨g, w, rfl, hw, hlast⟩
      · rw [hall x hx] at hgiven
        cases hgiven
  · intro x hx g k v hv hlost
    exact mem_overwritten hx hv hlost
  · intro g
    rw [hlisted, length_changes]
  · intro g hg
    rw [hgroups] at hg
    obtain ⟨x, -, hx⟩ := List.mem_filterMap.1 (Distinct.mem_of_mem_dedup hg)
    exact target_named hx

theorem History.congr {sampleSize : Int} {xs : List Extracted} {t u : GroupTable} (h : History sampleSize xs u)
    (hg : t.groups = u.groups) (ho : t.diagnostics.overwrites = u.diagnostics.overwrites)
    (hs : t.diagnostics.skippedFiles = u.diagnostics.skippedFiles) : History sampleSize xs t := by
  have hstored : ∀ g k, t.stored g k = u.stored g k := fun g k => by rw [stored, hg, stored]
  have hover : ∀ g, t.overwritten g = u.overwritten g := fun g => by rw [overwritten, ho, overwritten]
  refine ⟨?_, ?_, ?_, ?_, ?_, ?_, ?_, ?_⟩
  · simpa only [hstored, hs] using h.kept
  · simpa only [hstored, hover] using h.noted
  · simpa only [hover] using h.listed
  · simpa only [hover] using h.counted
  · simpa only [hg] using h.named
  · rw [hg, h.groupOrder]
  · simpa only [hg] using h.keyOrder
  · rw [hs, h.skipped]

/-- Whatever is merged, nothing is lost without a trace and the last write wins; so also
in the reference of a batch. What is in a group, and what is listed for it, comes from the
files of that group alone. -/
theorem history_merged (sampleSize : Int) (xs : List Extracted) :
    History sampleSize xs ((start sampleSize).run xs) ∧
      History sampleSize xs (Reference.mergeAll sampleSize xs).value ∧
      ∀ (ys : List Extracted) (g : Text),
        (xs.filter fun x => target? x = some g) = (ys.filter fun y => target? y = some g) →
        ((start sampleSize).run xs).groups.get? g = ((start sampleSize).run ys).groups.get? g ∧
          ((start sampleSize).run xs).diagnostics.overwrites.get? g =
            ((start sampleSize).run ys).diagnostics.overwrites.get? g := by
  have hrun := run_history sampleSize xs
  obtain ⟨hg, ho, hs⟩ := mergeAll_run sampleSize xs
  refine ⟨hrun, hrun.congr hg ho hs, ?_⟩
  intro ys g h
  have hslot := slot_congr (start sampleSize) h
  exact ⟨congrArg Slot.table hslot, congrArg Slot.overwrites hslot⟩

def sampleFiles : List Extracted :=
  [{ file := "a.ts", keys := .ofList [("k", "1"), ("m", "x")], plugin := some "p" },
    { file := "b.ts", keys := .ofList [("k", "0")], plugin := some "Dist" },
    { file := "c.ts", keys := .ofList [("k", "3")], plugin := some "q" },
    { file := "d.ts", keys := .ofList [("n", "y"), ("k", "2")], plugin := some "p" }]

def sampleRest : List Extracted := [sampleFiles[0], sampleFiles[3]]

theorem history_merged_sample :
    ((start 5).run sampleFiles).stored "p" "k" = some "2" ∧
      ("k" : Text) ∈ ((start 5).run sampleFiles).overwritten "p" ∧
      ((start 5).run sampleFiles).groups.keys = (["p", "q"] : List Text) ∧
      ((start 5).run sampleFiles).diagnostics.skippedFiles = (["b.ts"] : List Text) ∧
      (sampleFiles.filter fun x => target? x = some "p") = (sampleRest.filter fun y => target? y = some "p") ∧
      ((start 5).run sampleFiles).groups.get? "p" = ((start 5).run sampleRest).groups.get? "p" ∧
      ((start 5).run sampleFiles).diagnostics.overwrites.get? "p" =
        ((start 5).run sampleRest).diagnostics.overwrites.get? "p" := by
  have hsame : (sampleFiles.filter fun x => target? x = some "p") =
      (sampleRest.filter fun y => target? y = some "p") := rfl
  have hlast : ((start 5).run sampleFiles).stored "p" "k" = some "2" := by decide +kernel
  obtain ⟨hrun, -, hgroup⟩ := history_merged 5 sampleFiles
  obtain ⟨htable, hlisted⟩ := hgroup sampleRest "p" hsame
  refine ⟨hlast, ?_, ?_, ?_, hsame, htable, hlisted⟩
  · refine hrun.noted sampleFiles[0] (by simp [sampleFiles]) "p" "k" "1" (by decide +kernel) ?_
    rw [hlast]
    decide
  · rw [hrun.groupOrder]
    decide +kernel
  · rw [hrun.skipped]
    decide +kernel

end MessageCatalog.GroupTable
