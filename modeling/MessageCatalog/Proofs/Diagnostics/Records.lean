/-
  MessageCatalog.Proofs.Diagnostics.Records — what a report holds after any run of records.

  Five kinds of findings go into five stores. A store is a function of the findings of its
  kind, in their order, whatever was recorded in between: of rejected keys and of files
  without a tree the first occurrences stay, of everything else all of it. No finding opens
  a bucket and leaves it empty, so a store is empty exactly if nothing is counted for it.

  Proved, for every run of records: the stores are those functions (`recordAll_stores`), and
  what a report tells of them agrees, counts, samples and the question for issues
  (`recordAll_consistent`).
-/

import MessageCatalog.Proofs.Document
import MessageCatalog.Proofs.GroupTable

namespace MessageCatalog.Diagnostics

/-! ## Findings -/

/-- What is recorded in one go. -/
inductive Finding where
  | rejection (file : Text) (keys : List Text)
  | fallback (file : Text)
  | overwrite (plugin file : Text) (keys : List Text)
  | skip (file reason : Text)
  | error (report : Report) (file : Option Text)

namespace Finding

def record (d : Diagnostics) : Finding → Logged Diagnostics
  | .rejection file keys => d.recordInvalidKeys file keys
  | .fallback file => return d.recordFallback file
  | .overwrite plugin file keys => d.recordOverwrite plugin file keys
  | .skip file reason => d.recordSkip file reason
  | .error report file => d.recordError report file

/-- The file of which keys are rejected; there have to be some. -/
def rejecting? : Finding → Option Text
  | .rejection file (_ :: _) => some file
  | _ => none

def rejectedOf (file : Text) : Finding → List Text
  | .rejection f keys => if f = file then keys else []
  | _ => []

def fallback? : Finding → Option Text
  | .fallback file => some file
  | _ => none

def overwriting? : Finding → Option Text
  | .overwrite plugin _ (_ :: _) => some plugin
  | _ => none

def overwrittenOf (plugin : Text) : Finding → List Text
  | .overwrite p _ keys => if p = plugin then keys else []
  | _ => []

def skip? : Finding → Option Skipped
  | .skip file reason => some ⟨file, reason⟩
  | _ => none

def error? : Finding → Option (Report × Option Text)
  | .error report file => some (report, file)
  | _ => none

theorem rejectedOf_ne_nil {x : Finding} {file : Text} (h : x.rejecting? = some file) : x.rejectedOf file ≠ [] := by
  cases x with
  | rejection f keys =>
    cases keys with
    | nil => cases h
    | cons k ks =>
      obtain rfl := Option.some.inj h
      simp [rejectedOf]
  | _ => cases h

theorem overwrittenOf_ne_nil {x : Finding} {plugin : Text} (h : x.overwriting? = some plugin) :
    x.overwrittenOf plugin ≠ [] := by
  cases x with
  | overwrite p f keys =>
    cases keys with
    | nil => cases h
    | cons k ks =>
      obtain rfl := Option.some.inj h
      simp [overwrittenOf]
  | _ => cases h

end Finding

/-- One finding after the other, into a new report. -/
def recordAll (sampleSize : Nat) (xs : List Finding) : Logged Diagnostics :=
  xs.foldlM Finding.record { sampleSize }

/-! ## Buckets -/

/-- A table of buckets after a run: which one a finding opens, and what it puts into each. A
bucket holds what `fill` makes of all that was put into it. -/
structure Bucketed {β : Type} (fill : List Text → β) (opened : Finding → Option Text)
    (items : Text → Finding → List Text) (xs : List Finding) (t : Table Text β) : Prop where
  names : t.keySet = .ofList (xs.filterMap opened)
  bucket : ∀ name, (t.get? name).getD (fill []) = fill (xs.flatMap (items name))

section

variable {α : Type} {xs : List Finding} {x : Finding}

theorem filterMap_none {f : Finding → Option α} (h : f x = none) : (xs ++ [x]).filterMap f = xs.filterMap f := by
  simp [h]

theorem filterMap_some {f : Finding → Option α} {a : α} (h : f x = some a) :
    (xs ++ [x]).filterMap f = xs.filterMap f ++ [a] := by
  simp [h]

theorem flatMap_concat (f : Finding → List α) : (xs ++ [x]).flatMap f = xs.flatMap f ++ f x := by
  simp

theorem flatMap_nil {f : Finding → List α} (h : f x = []) : (xs ++ [x]).flatMap f = xs.flatMap f := by
  simp [h]

theorem ofList_append (ks ls : List Text) : Distinct.ofList (ks ++ ls) = (Distinct.ofList ks).addAll ls :=
  Distinct.addAll_append .empty ks ls

namespace Bucketed

variable {β : Type} {fill : List Text → β} {opened : Finding → Option Text} {items : Text → Finding → List Text}
  {t : Table Text β}

theorem idle (h : Bucketed fill opened items xs t) (hopened : opened x = none) (hitems : ∀ name, items name x = []) :
    Bucketed fill opened items (xs ++ [x]) t where
  names := by rw [filterMap_none hopened, h.names]
  bucket name := by rw [flatMap_nil (hitems name), h.bucket]

theorem add (h : Bucketed fill opened items xs t) {name : Text} (hopened : opened x = some name)
    (hitems : ∀ other, other ≠ name → items other x = []) {v : β}
    (hv : v = fill (xs.flatMap (items name) ++ items name x)) :
    Bucketed fill opened items (xs ++ [x]) (t.insert name v) where
  names := by
    rw [filterMap_some hopened, Table.keySet_insert, ofList_append, h.names]
    rfl
  bucket other := by
    rw [Table.get?_insert, flatMap_concat]
    by_cases hn : name = other
    · subst hn
      rw [if_pos (beq_self_eq_true name), hv, Option.getD_some]
    · rw [if_neg (by simpa using hn), hitems other (Ne.symm hn), List.append_nil, h.bucket]

/-- If nothing is put into a bucket without opening it, and it is not opened for nothing, no
bucket of the table is empty. -/
theorem ne_nil (h : Bucketed fill opened items xs t) (hitems : ∀ x name, opened x = some name → items name x ≠ [])
    {name : Text} {v : β} (hget : t.get? name = some v) :
    v = fill (xs.flatMap (items name)) ∧ xs.flatMap (items name) ≠ [] := by
  refine ⟨?_, fun hnil => ?_⟩
  · rw [← h.bucket, hget, Option.getD_some]
  · have hname : name ∈ t.keySet.toList := Table.mem_keys_iff.2 (by rw [hget]; rfl)
    rw [h.names] at hname
    obtain ⟨x, hx, hopened⟩ := List.mem_filterMap.1 (Distinct.mem_of_mem_dedup hname)
    exact hitems x name hopened (List.flatMap_eq_nil_iff.1 hnil x hx)

end Bucketed

end

/-! ## The stores -/

/-- Each store as a function of what was recorded. -/
structure Stores (sampleSize : Nat) (xs : List Finding) (d : Diagnostics) : Prop where
  sampleSize : d.sampleSize = sampleSize
  rejected : Bucketed Distinct.ofList Finding.rejecting? Finding.rejectedOf xs d.invalidKeys
  fallbacks : d.fallbackFiles = .ofList (xs.filterMap Finding.fallback?)
  overwritten : Bucketed id Finding.overwriting? Finding.overwrittenOf xs d.overwrites
  skipped : d.skipped = xs.filterMap Finding.skip?
  errors : d.errors = xs.filterMap Finding.error?

theorem recordInvalidKeys_value (d : Diagnostics) (file : Text) (keys : List Text) :
    (d.recordInvalidKeys file keys).value =
      if keys.isEmpty then d
      else { d with
        invalidKeys := d.invalidKeys.insert file (((d.invalidKeys.get? file).getD .empty).addAll keys) } := by
  rw [recordInvalidKeys]
  split <;> rfl

namespace Stores

variable {n : Nat} {xs : List Finding} {d : Diagnostics}

theorem start (n : Nat) : Stores n [] { sampleSize := n } :=
  ⟨rfl, ⟨rfl, fun _ => rfl⟩, rfl, ⟨rfl, fun _ => rfl⟩, rfl, rfl⟩

theorem reject (h : Stores n xs d) (file : Text) (keys : List Text) :
    Stores n (xs ++ [.rejection file keys]) (d.recordInvalidKeys file keys).value := by
  have hrejected : Bucketed Distinct.ofList Finding.rejecting? Finding.rejectedOf (xs ++ [.rejection file keys])
      (d.recordInvalidKeys file keys).value.invalidKeys := by
    rw [recordInvalidKeys_value]
    cases keys with
    | nil => exact h.rejected.idle rfl fun _ => ite_self []
    | cons k ks =>
      have hother : ∀ f, f ≠ file → (Finding.rejection file (k :: ks)).rejectedOf f = [] := fun f hf =>
        if_neg (Ne.symm hf)
      refine h.rejected.add rfl hother ?_
      rw [ofList_append, ← h.rejected.bucket, Finding.rejectedOf, if_pos rfl]
      rfl
  have hrest : ∃ t, (d.recordInvalidKeys file keys).value = { d with invalidKeys := t } := by
    rw [recordInvalidKeys_value]
    split
    · exact ⟨d.invalidKeys, rfl⟩
    · exact ⟨_, rfl⟩
  obtain ⟨t, ht⟩ := hrest
  rw [ht] at hrejected ⊢
  exact ⟨h.sampleSize, hrejected, h.fallbacks.trans (congrArg _ (filterMap_none rfl).symm),
    h.overwritten.idle rfl fun _ => rfl, h.skipped.trans (filterMap_none rfl).symm,
    h.errors.trans (filterMap_none rfl).symm⟩

theorem overwrite (h : Stores n xs d) (plugin file : Text) (keys : List Text) :
    Stores n (xs ++ [.overwrite plugin file keys]) (d.recordOverwrite plugin file keys).value := by
  rw [GroupTable.recordOverwrite_value]
  have hoverwritten : Bucketed id Finding.overwriting? Finding.overwrittenOf (xs ++ [.overwrite plugin file keys])
      (if keys.isEmpty then d.overwrites else d.overwrites.alter plugin fun old => old.getD [] ++ keys) := by
    cases keys with
    | nil => exact h.overwritten.idle rfl fun _ => ite_self []
    | cons k ks =>
      have hother : ∀ p, p ≠ plugin → (Finding.overwrite plugin file (k :: ks)).overwrittenOf p = [] := fun p hp =>
        if_neg (Ne.symm hp)
      refine h.overwritten.add rfl hother ?_
      have hbucket : (d.overwrites.get? plugin).getD [] = xs.flatMap (Finding.overwrittenOf plugin) :=
        h.overwritten.bucket plugin
      simp only [hbucket, Finding.overwrittenOf, if_true, id_eq]
  exact ⟨h.sampleSize, h.rejected.idle rfl fun _ => rfl, h.fallbacks.trans (congrArg _ (filterMap_none rfl).symm),
    hoverwritten, h.skipped.trans (filterMap_none rfl).symm, h.errors.trans (filterMap_none rfl).symm⟩

theorem record (h : Stores n xs d) (x : Finding) : Stores n (xs ++ [x]) (x.record d).value := by
  cases x with
  | rejection file keys => exact h.reject file keys
  | overwrite plugin file keys => exact h.overwrite plugin file keys
  | fallback file =>
    have hfiles : d.fallbackFiles.add file = .ofList ((xs ++ [Finding.fallback file]).filterMap Finding.fallback?) := by
      rw [filterMap_some (x := .fallback file) (a := file) rfl, ofList_append, h.fallbacks]
      rfl
    exact ⟨h.sampleSize, h.rejected.idle rfl fun _ => rfl, hfiles, h.overwritten.idle rfl fun _ => rfl,
      h.skipped.trans (filterMap_none rfl).symm, h.errors.trans (filterMap_none rfl).symm⟩
  | skip file reason =>
    have hskipped : d.skipped ++ [⟨file, reason⟩] = (xs ++ [Finding.skip file reason]).filterMap Finding.skip? := by
      rw [filterMap_some (x := .skip file reason) (a := ⟨file, reason⟩) rfl, h.skipped]
    exact ⟨h.sampleSize, h.rejected.idle rfl fun _ => rfl, h.fallbacks.trans (congrArg _ (filterMap_none rfl).symm),
      h.overwritten.idle rfl fun _ => rfl, hskipped, h.errors.trans (filterMap_none rfl).symm⟩
  | error report file =>
    have herrors : d.errors ++ [(report, file)] = (xs ++ [Finding.error report file]).filterMap Finding.error? := by
      rw [filterMap_some (x := .error report file) (a := (report, file)) rfl, h.errors]
    exact ⟨h.sampleSize, h.rejected.idle rfl fun _ => rfl, h.fallbacks.trans (congrArg _ (filterMap_none rfl).symm),
      h.overwritten.idle rfl fun _ => rfl, h.skipped.trans (filterMap_none rfl).symm, herrors⟩

end Stores

theorem recordAll_stores (n : Nat) (xs : List Finding) : Stores n xs (recordAll n xs).value := by
  rw [recordAll, Logged.value_foldlM]
  induction xs using List.reverseRecOn with
  | nil => exact .start n
  | append_singleton xs x ih =>
    rw [List.foldl_append, List.foldl_cons, List.foldl_nil]
    exact ih.record x

/-! ## The report -/

/-- `ys` has what `xs` has, once, in the order in which it first occurs there. -/
structure FirstOccurrences (xs ys : List Text) : Prop where
  once : ys.Nodup
  mem : ∀ y, y ∈ ys ↔ y ∈ xs
  order : ys.Pairwise fun a b => ∃ front back, xs = front ++ a :: back ∧ b ∉ front

theorem firstOccurrences_ofList (xs : List Text) : FirstOccurrences xs (Distinct.ofList xs).toList where
  once := (Distinct.ofList xs).nodup
  mem _ := Distinct.mem_dedup_iff fun _ => beq_iff_eq
  order := Distinct.pairwise_dedup xs

theorem Bucketed.keys {β : Type} {fill : List Text → β} {opened : Finding → Option Text}
    {items : Text → Finding → List Text} {xs : List Finding} {t : Table Text β}
    (h : Bucketed fill opened items xs t) : FirstOccurrences (xs.filterMap opened) t.keys := by
  have hkeys : t.keys = (Distinct.ofList (xs.filterMap opened)).toList := congrArg Distinct.toList h.names
  rw [hkeys]
  exact firstOccurrences_ofList _

/-- How many items there are, and the first few. -/
structure Tallies (n : Nat) (items : List Text) (t : Tally) : Prop where
  count : t.count = items.length
  sample : t.sample = items.take (min n items.length)

theorem tallies {n : Nat} {d : Diagnostics} (h : d.sampleSize = n) (items : List Text) :
    Tallies n items (d.tally items) where
  count := rfl
  sample := by
    have hn : ¬ (n : Int) < 0 := by omega
    rw [tally, h, MessageCatalog.sample, if_neg hn, Int.toNat_natCast]
    exact List.take_eq_take_iff.2 (by omega)

def Summary.tallies (s : Summary) : List Tally := [s.invalidKeys, s.fallbacks, s.overwrites, s.skipped, s.errors]

/-- What the report `d` tells of the findings `xs`. -/
structure Consistent (n : Nat) (xs : List Finding) (d : Diagnostics) : Prop where
  rejectedFiles : FirstOccurrences (xs.filterMap Finding.rejecting?) d.invalidKeys.keys
  rejectedKeys : ∀ file keys, d.invalidKeys.get? file = some keys →
    keys.toList ≠ [] ∧ FirstOccurrences (xs.flatMap (Finding.rejectedOf file)) keys.toList
  fallbackFiles : FirstOccurrences (xs.filterMap Finding.fallback?) d.fallbackFiles.toList
  overwrittenPlugins : FirstOccurrences (xs.filterMap Finding.overwriting?) d.overwrites.keys
  overwrittenKeys : ∀ plugin keys, d.overwrites.get? plugin = some keys →
    keys ≠ [] ∧ keys = xs.flatMap (Finding.overwrittenOf plugin)
  skipped : d.skipped = xs.filterMap Finding.skip?
  errors : d.errors = xs.filterMap Finding.error?
  invalidTally : Tallies n (d.invalidKeys.entries.flatMap fun e => e.2.toList) d.summary.invalidKeys
  fileCount : d.summary.files = d.invalidKeys.keys.length
  fallbackTally : Tallies n d.fallbackFiles.toList d.summary.fallbacks
  overwriteTally : Tallies n (d.overwrites.entries.flatMap fun e => e.2.map fun k => e.1 ++ ":" ++ k)
    d.summary.overwrites
  skippedTally : Tallies n (d.skipped.map (·.file)) d.summary.skipped
  errorTally : Tallies n (d.errors.map (·.1.message)) d.summary.errors
  invalidCount : d.invalidKeyCount = d.summary.invalidKeys.count
  issues : d.hasIssues = true ↔ ∃ t ∈ d.summary.tallies, 0 < t.count

theorem flatMap_pos {α β : Type} {f : α → List β} {es : List α} (h : ∀ e ∈ es, f e ≠ []) :
    0 < (es.flatMap f).length ↔ es.isEmpty = false := by
  cases es with
  | nil => simp
  | cons e es =>
    have he : 0 < (f e).length := List.length_pos_iff.2 (h e List.mem_cons_self)
    refine iff_of_true ?_ rfl
    rw [List.flatMap_cons, List.length_append]
    omega

section

variable {n : Nat} {xs : List Finding} {d : Diagnostics}

theorem Stores.rejectedKeys (h : Stores n xs d) {file : Text} {keys : Distinct Text}
    (hget : d.invalidKeys.get? file = some keys) :
    keys.toList ≠ [] ∧ FirstOccurrences (xs.flatMap (Finding.rejectedOf file)) keys.toList := by
  obtain ⟨rfl, hitems⟩ := h.rejected.ne_nil (fun _ _ => Finding.rejectedOf_ne_nil) hget
  have hfirst := firstOccurrences_ofList (xs.flatMap (Finding.rejectedOf file))
  obtain ⟨k, hk⟩ := List.exists_mem_of_ne_nil _ hitems
  exact ⟨List.ne_nil_of_mem ((hfirst.mem k).2 hk), hfirst⟩

theorem Stores.overwrittenKeys (h : Stores n xs d) {plugin : Text} {keys : List Text}
    (hget : d.overwrites.get? plugin = some keys) :
    keys ≠ [] ∧ keys = xs.flatMap (Finding.overwrittenOf plugin) := by
  obtain ⟨rfl, hitems⟩ := h.overwritten.ne_nil (fun _ _ => Finding.overwrittenOf_ne_nil) hget
  exact ⟨hitems, rfl⟩

theorem Stores.issues (h : Stores n xs d) : d.hasIssues = true ↔ ∃ t ∈ d.summary.tallies, 0 < t.count := by
  have hrejected : 0 < d.allInvalidKeys.length ↔ d.invalidKeys.isEmpty = false :=
    flatMap_pos fun e he => (h.rejectedKeys (Table.get?_of_mem he)).1
  have hoverwritten : 0 < d.allOverwrites.length ↔ d.overwrites.isEmpty = false :=
    flatMap_pos fun e he => by simpa using (h.overwrittenKeys (Table.get?_of_mem he)).1
  have hlist {α : Type} (items : List α) : 0 < items.length ↔ items.isEmpty = false := by
    cases items <;> simp
  simp only [hasIssues, Bool.or_eq_true, Bool.not_eq_true', Summary.tallies, summary, tally, List.mem_cons,
    List.not_mem_nil, or_false, exists_eq_or_imp, exists_eq_left, hrejected, hoverwritten, hlist, skippedFiles,
    errorMessages, List.isEmpty_map, or_assoc]

end

theorem invalidKeyCount_eq (d : Diagnostics) : d.invalidKeyCount = d.summary.invalidKeys.count := by
  rw [invalidKeyCount, Document.total_eq_sum]
  exact List.length_flatMap.symm

/-- Whatever is recorded, in whatever order: no bucket is empty, repetitions are kept or
dropped as their kind wants it, and counts, samples and issues tell of the same items. -/
theorem recordAll_consistent (n : Nat) (xs : List Finding) : Consistent n xs (recordAll n xs).value := by
  have h := recordAll_stores n xs
  exact
    { rejectedFiles := h.rejected.keys
      rejectedKeys := fun _ _ => h.rejectedKeys
      fallbackFiles := h.fallbacks ▸ firstOccurrences_ofList _
      overwrittenPlugins := h.overwritten.keys
      overwrittenKeys := fun _ _ => h.overwrittenKeys
      skipped := h.skipped
      errors := h.errors
      invalidTally := tallies h.sampleSize _
      fileCount := (List.length_map _).symm
      fallbackTally := tallies h.sampleSize _
      overwriteTally := tallies h.sampleSize _
      skippedTally := tallies h.sampleSize _
      errorTally := tallies h.sampleSize _
      invalidCount := invalidKeyCount_eq _
      issues := h.issues }

end MessageCatalog.Diagnostics
