/-
  MessageCatalog.Proofs.Extraction.ValidKeys — only keys enter a table, and none is
  rejected.

  Every rule and every pass of the line scan changes a collection by the same few
  operations, each of which keeps the invariant. Descriptors are the exception: they are
  flattened below a root of their own, and it takes the grammar's law of joining to see
  that what is cut out of an accepted path is a key, and what is cut out of a rejected one
  is none.

  Proved: what is extracted from any source satisfies the invariant
  (`extract_validKeys`).
-/

import MessageCatalog.Proofs.Extraction.Preorder
import MessageCatalog.Proofs.Key
import MessageCatalog.Proofs.Literal.Flatten

namespace MessageCatalog.Extraction

/-! ## The invariant -/

/-- The table holds keys only, none was rejected, and no plugin goes without a name. -/
structure Collection.Inv (c : Collection) : Prop where
  valid : ∀ k ∈ c.keys.keys, Key.isValid k = true
  invalid : ∀ k ∈ c.rejected.toList, Key.isValid k = false
  named : c.plugin ≠ some []

namespace Collection

variable {c : Collection}

theorem init_inv (file : Text) (limits : Limits) : Inv { file, limits } :=
  ⟨fun _ hk => (by cases hk), fun _ hk => (by cases hk), fun h => (by cases h)⟩

/-! ## Each operation keeps it -/

theorem reject_inv (hi : c.Inv) {k : Text} (hk : Key.isValid k = false) : (c.reject k).Inv :=
  { hi with invalid := Distinct.forall_mem_add hi.invalid hk }

theorem add_inv (hi : c.Inv) (k v : Text) : (c.add k v).Inv := by
  rw [add]
  split
  · rename_i hk
    exact { hi with valid := Table.forall_key_insert hi.valid hk v }
  · rename_i hk
    exact reject_inv hi (Bool.eq_false_iff.2 hk)

theorem warn_inv (hi : c.Inv) (message : Text) : (c.warn message).Inv := { hi with }

theorem setPlugin_inv (hi : c.Inv) (id : Option Text) : (c.setPlugin id).Inv := by
  unfold setPlugin
  split
  · exact { hi with named := fun h => by cases h }
  · exact hi

theorem addLiteral_cases (c : Collection) (literal base : Text) :
    (∃ f, (Literal.flatten c.limits base literal).run.value = .ok f ∧
      (c.addLiteral literal base).value =
        { c with keys := c.keys.insertAll f.entries.entries, rejected := c.rejected.addAll f.rejected.toList }) ∨
      ∃ warnings, (c.addLiteral literal base).value = { c with warnings } := by
  rw [addLiteral, Logged.value_bind]
  cases (Literal.flatten c.limits base literal).run.value with
  | ok f => exact .inl ⟨f, rfl, rfl⟩
  | error fault =>
    refine .inr ?_
    simp only
    cases fault.report? with
    | some r => exact ⟨_, rfl⟩
    | none => exact ⟨c.warnings, rfl⟩

theorem addLiteral_inv (hi : c.Inv) (literal base : Text) : (c.addLiteral literal base).value.Inv := by
  rcases addLiteral_cases c literal base with ⟨f, hf, hc⟩ | ⟨ws, hc⟩
  · have hvalid : ∀ e ∈ f.entries.entries, Key.isValid e.1 = true := fun e he => by
      rw [Literal.flatten_ok hf] at he
      exact Literal.tabulate_valid _ _ (List.mem_map_of_mem he)
    have hinvalid : ∀ k ∈ f.rejected.toList, Key.isValid k = false := by
      rw [Literal.flatten_ok hf]
      exact Literal.tabulate_invalid _
    rw [hc]
    exact { hi with
      valid := Table.forall_key_insertAll hi.valid hvalid
      invalid := Distinct.forall_mem_addAll hi.invalid hinvalid }
  · rw [hc]
    exact { hi with }

theorem foldl_inv {α : Type} {f : Collection → α → Collection} (hf : ∀ c x, c.Inv → (f c x).Inv) (hi : c.Inv)
    (xs : List α) : (xs.foldl f c).Inv := by
  induction xs generalizing c with
  | nil => exact hi
  | cons x xs ih => exact ih (hf c x hi)

theorem foldlM_inv {α : Type} {f : Collection → α → Logged Collection} (hf : ∀ c x, c.Inv → (f c x).value.Inv)
    (hi : c.Inv) (xs : List α) : (xs.foldlM f c).value.Inv := by
  rw [Logged.value_foldlM]
  exact foldl_inv hf hi xs

end Collection

open Collection
open TypeScript (Node)

/-! ## Each rule keeps it -/

namespace KeyRule

variable {c : Collection}

theorem gatherProperty_inv (k : CallKind) (n : Node) (hi : c.Inv) : (gatherProperty k n c).value.Inv := by
  rw [gatherProperty]
  split
  · exact addLiteral_inv hi _ _
  · exact hi

theorem addDescriptor_inv (hi : c.Inv) (p : Option Text × Node) : (addDescriptor c p).Inv := by
  rw [addDescriptor]
  split
  · exact add_inv hi _ _
  · exact hi

theorem typeDeclaration_inv (n : Node) (hi : c.Inv) : (typeDeclaration.gather n c).value.Inv := by
  show Inv ((typedKeys? n).elim c _)
  cases typedKeys? n with
  | none => exact hi
  | some p =>
    have hplugin := setPlugin_inv hi (Shape.literalType? p.1)
    show Inv (if p.2.kind = .objectType then _ else _)
    split
    · exact foldl_inv (fun c e hc => add_inv hc e.1 e.2) hplugin _
    · exact hplugin

/-- Whatever node a rule is handed. -/
theorem gather_inv {r : KeyRule} (hr : r ∈ all) (n : Node) (hi : c.Inv) : (r.gather n c).value.Inv := by
  simp only [all, List.mem_cons, List.not_mem_nil, or_false] at hr
  rcases hr with rfl | rfl | rfl | rfl | rfl | rfl | rfl | rfl
  · exact gatherProperty_inv .definition n (setPlugin_inv hi _)
  · exact gatherProperty_inv .resource n hi
  · exact gatherProperty_inv .override n hi
  · exact foldl_inv (fun c p hc => addDescriptor_inv hc p) hi _
  · exact foldlM_inv (fun c o hc => addLiteral_inv hc _ _) hi _
  · show Inv ((inlineKey? n).elim c _)
    cases inlineKey? n with
    | none => exact hi
    | some e => exact add_inv hi e.1 e.2
  · exact foldl_inv (fun c k hc => add_inv hc k k) hi _
  · exact typeDeclaration_inv n hi

end KeyRule

theorem gatherNode_inv {c : Collection} (hi : c.Inv) (n : Node) : (gatherNode c n).value.Inv := by
  rw [gatherNode, Logged.value_foldlM]
  have hall : ∀ r ∈ (KeyRule.forKind n.kind).filter (·.test n), r ∈ KeyRule.all := by
    rw [KeyRule.forKind_eq]
    exact fun r hr => (List.mem_filter.1 (List.mem_filter.1 hr).1).1
  generalize (KeyRule.forKind n.kind).filter (·.test n) = rules at hall
  induction rules generalizing c with
  | nil => exact hi
  | cons r rules ih => exact ih (KeyRule.gather_inv (hall r (by simp)) n hi) fun s hs => hall s (by simp [hs])

theorem gatherTree_inv {c : Collection} (hi : c.Inv) (root : Node) : (gatherTree c root).value.Inv :=
  foldlM_inv (fun _ n hc => gatherNode_inv hc n) hi _

/-! ## Descriptors -/

namespace LineScan

/-- The descriptors of a literal, flattened below their root. -/
def scratch (c : Collection) (literal : Text) : Collection :=
  (Collection.addLiteral { file := c.file, limits := c.limits } literal descriptorRoot).value

/-- The names that are rejected for rejected paths. -/
def rejectedNames (keys : List Text) : List Text :=
  (keys.filter fun key =>
    (descriptorRoot ++ ".").isPrefixOf key && descriptorFields.contains (descriptorField key).2).map
    fun key => (descriptorField key).1

/-- The names that are added, with their texts. -/
def describedNames (entries : List (Text × Text)) : List (Text × Text) :=
  (descriptors entries).entries.filterMap fun d => (descriptorText d.2).map fun t => (d.1, t)

theorem descriptorField_below (k : Text) :
    descriptorField (descriptorRoot ++ ('.' : Code) :: k) = Text.cutLast '.' k :=
  rfl

/-- A path below the root is a key if and only if its name and its field are. -/
theorem isValid_path {k : Text} (h : ('.' : Code) ∈ k) :
    Key.isValid (descriptorRoot ++ ('.' : Code) :: k) =
      (Key.isValid (Text.cutLast '.' k).1 && Key.isValid (Text.cutLast '.' k).2) := by
  have hroot : Key.isValid descriptorRoot = true := by decide
  rw [Key.isValid_join, hroot, Bool.true_and, ← Key.isValid_join, Text.cutLast_join h]

theorem name_valid {k : Text} (hvalid : Key.isValid (descriptorRoot ++ ('.' : Code) :: k) = true)
    (hname : (descriptorField (descriptorRoot ++ ('.' : Code) :: k)).1 ≠ []) :
    Key.isValid (descriptorField (descriptorRoot ++ ('.' : Code) :: k)).1 = true := by
  rw [descriptorField_below] at hname ⊢
  by_cases hdot : ('.' : Code) ∈ k
  · rw [isValid_path hdot, Bool.and_eq_true] at hvalid
    exact hvalid.1
  · rw [Text.cutLast, if_neg hdot] at hname
    exact absurd rfl hname

theorem name_invalid {k : Text} (hinvalid : Key.isValid (descriptorRoot ++ ('.' : Code) :: k) = false)
    (hfield : (descriptorField (descriptorRoot ++ ('.' : Code) :: k)).2 ∈ descriptorFields) :
    Key.isValid (descriptorField (descriptorRoot ++ ('.' : Code) :: k)).1 = false := by
  have hall : ∀ f ∈ descriptorFields, Key.isValid f = true := by decide
  rw [descriptorField_below] at hfield ⊢
  by_cases hdot : ('.' : Code) ∈ k
  · rwa [isValid_path hdot, hall _ hfield, Bool.and_true] at hinvalid
  · rw [Text.cutLast, if_neg hdot]
    rfl

theorem rejectedNames_invalid {keys : List Text} (h : ∀ k ∈ keys, Key.isValid k = false) :
    ∀ n ∈ rejectedNames keys, Key.isValid n = false := by
  intro n hn
  obtain ⟨key, hkey, rfl⟩ := List.mem_map.1 hn
  obtain ⟨hmem, htest⟩ := List.mem_filter.1 hkey
  rw [Bool.and_eq_true] at htest
  obtain ⟨k, rfl⟩ := List.isPrefixOf_iff_prefix.1 htest.1
  exact name_invalid (h _ hmem) (List.contains_iff_mem.1 htest.2)

theorem describedNames_valid {entries : List (Text × Text)} (hvalid : ∀ e ∈ entries, Key.isValid e.1 = true)
    (hbelow : ∀ e ∈ entries, ∃ k, e.1 = descriptorRoot ++ ('.' : Code) :: k) :
    ∀ e ∈ describedNames entries, Key.isValid e.1 = true := by
  have hkeys : ∀ k ∈ (descriptors entries).keys, Key.isValid k = true := by
    -- whatever is written to the table has the name of an accepted path
    refine List.foldlRecOn (motive := fun ds : Table Text (Table Text Text) => ∀ k ∈ ds.keys, Key.isValid k = true)
      entries _ (fun _ hk => by cases hk) fun ds hds e he => ?_
    show ∀ n ∈ (if (!(descriptorField e.1).1.isEmpty && descriptorFields.contains (descriptorField e.1).2) = true
      then _ else ds).keys, Key.isValid n = true
    split
    · rename_i h
      rw [Bool.and_eq_true, Bool.not_eq_true', List.isEmpty_eq_false_iff] at h
      obtain ⟨k, hk⟩ := hbelow e he
      have hname := hvalid e he
      rw [hk] at hname h ⊢
      exact Table.forall_key_insert hds (name_valid hname h.1) _
    · exact hds
  intro e he
  obtain ⟨d, hd, hmap⟩ := List.mem_filterMap.1 he
  obtain ⟨t, -, rfl⟩ := Option.map_eq_some_iff.1 hmap
  exact hkeys d.1 (List.mem_map_of_mem hd)

theorem scratch_inv (c : Collection) (literal : Text) : (scratch c literal).Inv :=
  addLiteral_inv (init_inv c.file c.limits) literal descriptorRoot

theorem scratch_below (c : Collection) (literal : Text) :
    ∀ e ∈ (scratch c literal).keys.entries, ∃ k, e.1 = descriptorRoot ++ ('.' : Code) :: k := by
  have hkeys : ∀ k ∈ (scratch c literal).keys.keys, ∃ r, k = descriptorRoot ++ ('.' : Code) :: r := by
    rcases addLiteral_cases { file := c.file, limits := c.limits } literal descriptorRoot with
      ⟨f, hf, hc⟩ | ⟨ws, hc⟩
    · rw [scratch, hc]
      refine Table.forall_key_insertAll (fun _ hk => by cases hk) fun e he => ?_
      rw [Literal.flatten_ok hf] at he
      have hroot : descriptorRoot ≠ [] := by decide
      exact Literal.tabulate_from (p := fun k => ∃ r, k = descriptorRoot ++ ('.' : Code) :: r)
        (Literal.emissions_below _ hroot _) e.1 (List.mem_map_of_mem he)
    · rw [scratch, hc]
      exact fun _ hk => by cases hk
  exact fun e he => hkeys e.1 (List.mem_map_of_mem he)

theorem foldl_warn (c : Collection) (ws : List Text) :
    ws.foldl warn c = { c with warnings := c.warnings ++ ws } := by
  induction ws generalizing c with
  | nil => simp
  | cons w ws ih => rw [List.foldl_cons, ih]; simp [warn]

theorem foldl_rejectedNames (c : Collection) (keys : List Text) :
    keys.foldl
      (fun c key =>
        let (name, field) := descriptorField key
        if (descriptorRoot ++ ".").isPrefixOf key && descriptorFields.contains field then c.reject name else c)
      c = { c with rejected := c.rejected.addAll (rejectedNames keys) } := by
  induction keys generalizing c with
  | nil => rfl
  | cons key keys ih =>
    rw [List.foldl_cons, ih]
    by_cases h :
      ((descriptorRoot ++ ".").isPrefixOf key && descriptorFields.contains (descriptorField key).2) = true
    · simp only [rejectedNames, List.filter_cons, if_pos h, List.map_cons]
      rfl
    · simp only [rejectedNames, List.filter_cons, if_neg h]

theorem foldl_describedNames (c : Collection) (ds : List (Text × Table Text Text))
    (h : ∀ e ∈ ds.filterMap fun d => (descriptorText d.2).map fun t => (d.1, t), Key.isValid e.1 = true) :
    ds.foldl (fun c d => (descriptorText d.2).elim c (c.add d.1)) c =
      { c with keys := c.keys.insertAll (ds.filterMap fun d => (descriptorText d.2).map fun t => (d.1, t)) } := by
  induction ds generalizing c with
  | nil => rfl
  | cons d ds ih =>
    rw [List.foldl_cons]
    cases ht : descriptorText d.2 with
    | none =>
      simp only [List.filterMap_cons, ht, Option.map_none] at h ⊢
      exact ih c h
    | some t =>
      simp only [List.filterMap_cons, ht, Option.map_some] at h ⊢
      have hd : c.add d.1 t = { c with keys := c.keys.insert d.1 t } := by
        rw [add, if_pos (h (d.1, t) (by simp))]
      rw [Option.elim_some, hd, ih _ fun e he => h e (List.mem_cons_of_mem _ he)]
      rfl

theorem scratch_described (c : Collection) (literal : Text) :
    ∀ e ∈ describedNames (scratch c literal).keys.entries, Key.isValid e.1 = true :=
  describedNames_valid (fun _ he => (scratch_inv c literal).valid _ (List.mem_map_of_mem he))
    (scratch_below c literal)

theorem scratch_rejected (c : Collection) (literal : Text) :
    ∀ n ∈ rejectedNames (scratch c literal).rejected.toList, Key.isValid n = false :=
  rejectedNames_invalid (scratch_inv c literal).invalid

/-- Every name that is offered is taken, and no other is rejected than for its path. -/
theorem addDescriptors_eq (c : Collection) (literal : Text) :
    (addDescriptors c literal).value =
      { c with
        keys := c.keys.insertAll (describedNames (scratch c literal).keys.entries)
        rejected := c.rejected.addAll (rejectedNames (scratch c literal).rejected.toList)
        warnings := c.warnings ++ (scratch c literal).warnings } := by
  have hvalid := scratch_described c literal
  rw [addDescriptors, Logged.value_bind]
  show (descriptors (scratch c literal).keys.entries).entries.foldl _ _ = _
  rw [foldl_describedNames _ _ hvalid, foldl_rejectedNames, foldl_warn]
  rfl

theorem addDescriptors_inv {c : Collection} (hi : c.Inv) (literal : Text) :
    (addDescriptors c literal).value.Inv := by
  rw [addDescriptors_eq]
  exact { hi with
    valid := Table.forall_key_insertAll hi.valid (scratch_described c literal)
    invalid := Distinct.forall_mem_addAll hi.invalid (scratch_rejected c literal) }

/-! ## Each pass keeps it -/

theorem addCall_inv {c : Collection} (hi : c.Inv) (r : Region CallKind) : (addCall c r).value.Inv := by
  have hplugin : ∀ id, (if r.anchor = .definition then c.setPlugin id else c).Inv := by
    intro id
    split
    · exact setPlugin_inv hi id
    · exact hi
  simp only [addCall]
  split
  · exact addDescriptors_inv (hplugin _) r.literal
  · split
    · exact addLiteral_inv (hplugin _) _ _
    · exact hplugin _

theorem scanLine_inv {c : Collection} (hi : c.Inv) (line : Text) : (scanLine c line).Inv :=
  foldl_inv (fun _ _ hc => add_inv hc _ _) (foldl_inv (fun _ _ hc => add_inv hc _ _) hi _) _

theorem scan_inv {c : Collection} (hi : c.Inv) (t : Text) : (scan c t).value.Inv := by
  have hcalls : (scanCalls c t).value.Inv := foldlM_inv (fun _ r hc => addCall_inv hc r) hi _
  have hexports : (scanExports (scanCalls c t).value t).value.Inv :=
    foldlM_inv (fun _ r hc => addLiteral_inv hc r.literal []) hcalls _
  exact foldl_inv (fun _ line hc => scanLine_inv hc line) hexports _

end LineScan

/-! ## Results -/

/-- What the invariant says of a result. -/
structure Extracted.Valid (x : Extracted) : Prop where
  valid : ∀ k ∈ x.keys.keys, Key.isValid k = true
  invalid : ∀ k ∈ x.rejected, Key.isValid k = false
  disjoint : ∀ k ∈ x.rejected, k ∉ x.keys.keys
  once : x.rejected.Nodup
  named : x.plugin ≠ some []

theorem result_valid {c : Collection} (hi : c.Inv) (usedFallback : Bool) : (c.result usedFallback).Valid where
  valid := hi.valid
  invalid := hi.invalid
  disjoint k hr hk := by
    have hvalid := hi.valid k hk
    rw [hi.invalid k hr] at hvalid
    cases hvalid
  once := c.rejected.nodup
  named := hi.named

theorem extract_valid (limits : Limits) (path source : Text) (parser : TypeScript.Parser) :
    (extract limits path source parser).value.Valid := by
  have hinit := init_inv path limits
  simp only [extract]
  split
  · exact result_valid (warn_inv (LineScan.scan_inv hinit source) _) true
  · rename_i root _
    have hvalid := result_valid (gatherTree_inv hinit root) false
    simp only [Logged.value_bind]
    split
    · exact hvalid
    · exact hvalid

/-- Extraction, by either way, accepts nothing but keys and rejects none, also where the
line scan takes the paths of descriptors apart: what it adds there is accepted as it is,
and what it rejects there is no key. -/
theorem extract_validKeys (limits : Limits) (path source : Text) (parser : TypeScript.Parser) :
    (extract limits path source parser).value.Valid ∧
      (LineScan.scan { file := path, limits } source).value.result.Valid ∧
      ∀ (c : Collection) (literal : Text),
        (LineScan.addDescriptors c literal).value.keys =
            c.keys.insertAll (LineScan.describedNames (LineScan.scratch c literal).keys.entries) ∧
          (LineScan.addDescriptors c literal).value.rejected =
            c.rejected.addAll (LineScan.rejectedNames (LineScan.scratch c literal).rejected.toList) ∧
          (∀ e ∈ LineScan.describedNames (LineScan.scratch c literal).keys.entries, Key.isValid e.1 = true) ∧
          ∀ n ∈ LineScan.rejectedNames (LineScan.scratch c literal).rejected.toList, Key.isValid n = false := by
  have hscan := LineScan.scan_inv (init_inv path limits) source
  refine ⟨extract_valid limits path source parser, result_valid hscan false, ?_⟩
  intro c literal
  rw [LineScan.addDescriptors_eq]
  exact ⟨rfl, rfl, LineScan.scratch_described c literal, LineScan.scratch_rejected c literal⟩

end MessageCatalog.Extraction
