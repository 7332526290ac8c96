/-
  MessageCatalog.Proofs.Extraction.Descriptors — a list of descriptors, read off its tree
  and off its text.

  The rule looks at one descriptor after the other. The line scan flattens the whole list
  below a root, splits every path into a name and a field again, and regroups the fields
  by name. Both come to the same for names that are ASCII identifiers or quoted strings
  (`enumeratedCall_scanned`), since a field's name has no dot, so that a path is split where
  it was joined. For other names they differ (`enumeratedCall_scanned_differs`).
-/

import Mathlib.Data.List.Nodup
import MessageCatalog.Proofs.Extraction.Nodes
import MessageCatalog.Proofs.Extraction.ValidKeys
import MessageCatalog.Proofs.Literal.Listing

namespace MessageCatalog.Extraction

open Literal.Source (Name Quoted Field Descriptor Listing keyedDescriptors tabulate)

/-! ## What descriptors say -/

def fieldText (es : List (Text × Text)) : Option Text :=
  descriptorFields.findSome? fun k => (es.find? (·.1 == k)).map (·.2)

/-- Names and texts of the descriptors that have a text. -/
def described (ds : List (Text × List (Text × Text))) : List (Text × Text) :=
  ds.filterMap fun d => (fieldText d.2).map fun t => (d.1, t)

/-- Different names, fields without dots, and no field that counts more than once. -/
structure Separate (ds : List (Text × List (Text × Text))) : Prop where
  names : (ds.map (·.1)).Nodup
  undotted : ∀ d ∈ ds, ∀ e ∈ d.2, ('.' : Code) ∉ e.1
  once : ∀ d ∈ ds, ∀ k ∈ descriptorFields, (d.2.map (·.1)).count k ≤ 1

theorem Separate.of_sublist {ds es : List (Text × List (Text × Text))} (h : Separate ds) (hs : es.Sublist ds) :
    Separate es where
  names := h.names.sublist (hs.map _)
  undotted d hd := h.undotted d (hs.subset hd)
  once d hd := h.once d (hs.subset hd)

def counted (es : List (Text × Text)) : List (Text × Text) := es.filter fun e => descriptorFields.contains e.1

theorem counted_nodup {es : List (Text × Text)} (h : ∀ k ∈ descriptorFields, (es.map (·.1)).count k ≤ 1) :
    ((counted es).map (·.1)).Nodup := by
  have hmap : (counted es).map (·.1) = (es.map (·.1)).filter descriptorFields.contains := by
    rw [counted, List.filter_map]
    rfl
  rw [hmap]
  refine List.nodup_iff_count_le_one.2 fun k => ?_
  by_cases hk : descriptorFields.contains k = true
  · rw [List.count_filter hk]
    exact h k (List.contains_iff_mem.1 hk)
  · rw [List.count_eq_zero_of_not_mem fun hm => hk (List.mem_filter.1 hm).2]
    exact Nat.zero_le 1

theorem find?_counted {es : List (Text × Text)} {k : Text} (hk : k ∈ descriptorFields) :
    (counted es).find? (·.1 == k) = es.find? (·.1 == k) := by
  rw [counted, List.find?_filter]
  congr 1
  funext e
  by_cases he : (e.1 == k) = true
  · rw [eq_of_beq he, List.contains_iff_mem.2 hk]
    simp
  · simp [he]

theorem fieldText_counted (es : List (Text × Text)) : fieldText (counted es) = fieldText es := by
  have hall : ∀ ks : List Text, (∀ k ∈ ks, k ∈ descriptorFields) →
      (ks.findSome? fun k => ((counted es).find? (·.1 == k)).map (·.2)) =
        ks.findSome? fun k => (es.find? (·.1 == k)).map (·.2) := by
    intro ks hks
    induction ks with
    | nil => rfl
    | cons k ks ih =>
      rw [List.findSome?_cons, List.findSome?_cons, find?_counted (hks k (by simp)),
        ih fun k hk => hks k (List.mem_cons_of_mem _ hk)]
  exact hall descriptorFields fun _ hk => hk

theorem fieldText_eq_none {es : List (Text × Text)} : fieldText es = none ↔ counted es = [] := by
  rw [← fieldText_counted, fieldText, List.findSome?_eq_none_iff]
  simp only [Option.map_eq_none_iff, List.find?_eq_none]
  constructor
  · intro h
    refine List.eq_nil_iff_forall_not_mem.2 fun e he => ?_
    exact h e.1 (List.contains_iff_mem.1 (List.mem_filter.1 he).2) e he (beq_self_eq_true e.1)
  · intro h
    simp [h]

/-- What is offered one after the other, keys and others. -/
theorem Collection.foldl_add (c : Collection) (es : List (Text × Text)) :
    es.foldl (fun c e => c.add e.1 e.2) c =
      { c with
        keys := c.keys.insertAll (es.filter fun e => Key.isValid e.1)
        rejected := c.rejected.addAll ((es.filter fun e => !Key.isValid e.1).map (·.1)) } := by
  induction es generalizing c with
  | nil => rfl
  | cons e es ih =>
    rw [List.foldl_cons, ih]
    by_cases hk : Key.isValid e.1 = true
    · simp [add, hk, Table.insertAll]
    · simp [add, reject, hk, Distinct.addAll]

/-! ## Paths -/

namespace LineScan

/-- The path of a field below the root of all descriptors. -/
def path (name field : Text) : Text := descriptorRoot ++ ('.' : Code) :: (name ++ ('.' : Code) :: field)

theorem descriptorField_path (name : Text) {field : Text} (h : ('.' : Code) ∉ field) :
    descriptorField (path name field) = (name, field) := by
  rw [path, descriptorField_below, Text.cutLast_append name h]

theorem isValid_fieldPath (name field : Text) :
    Key.isValid (path name field) = (Key.isValid name && Key.isValid field) := by
  have hroot : Key.isValid descriptorRoot = true := by decide
  rw [path, Key.isValid_join, hroot, Bool.true_and, Key.isValid_join]

/-- The paths that count, of one descriptor after the other. -/
def paths (ds : List (Text × List (Text × Text))) : List (Text × Text) :=
  ds.flatMap fun d => (counted d.2).map fun e => (path d.1 e.1, e.2)

def counts (key : Text) : Bool := descriptorFields.contains (descriptorField key).2

variable {ds : List (Text × List (Text × Text))}

/-- Of the paths that count, those are keys whose descriptors have keys for names. -/
theorem filter_keyed (h : Separate ds) (p : Bool → Bool) :
    (keyedDescriptors descriptorRoot ds).filter (fun e => p (Key.isValid e.1) && counts e.1) =
      paths (ds.filter fun d => p (Key.isValid d.1)) := by
  have hfields : ∀ f ∈ descriptorFields, Key.isValid f = true := by decide
  have hone : ∀ d ∈ ds, (d.2.map fun e => (path d.1 e.1, e.2)).filter
      (fun e => p (Key.isValid e.1) && counts e.1) =
        if p (Key.isValid d.1) then (counted d.2).map fun e => (path d.1 e.1, e.2) else [] := by
    intro d hd
    have htest : ∀ e ∈ d.2, (p (Key.isValid (path d.1 e.1)) && counts (path d.1 e.1)) =
        (p (Key.isValid d.1) && descriptorFields.contains e.1) := by
      intro e he
      rw [counts, descriptorField_path d.1 (h.undotted d hd e he), isValid_fieldPath]
      by_cases hc : descriptorFields.contains e.1 = true
      · rw [hfields e.1 (List.contains_iff_mem.1 hc), Bool.and_true]
      · rw [Bool.eq_false_iff.2 hc, Bool.and_false, Bool.and_false]
    rw [List.filter_map, Function.comp_def, List.filter_congr htest]
    by_cases hp : p (Key.isValid d.1) = true
    · simp only [hp, Bool.true_and, if_true, counted]
    · simp [hp]
  rw [keyedDescriptors, List.filter_flatMap, paths]
  refine (List.flatMap_congr hone).trans ?_
  clear hone h
  induction ds with
  | nil => rfl
  | cons d ds ih =>
    rw [List.flatMap_cons, ih, List.filter_cons]
    split <;> rfl

theorem nodup_paths (h : Separate ds) : ((paths ds).map (·.1)).Nodup := by
  have hmap : ((paths ds).map (·.1)).map descriptorField =
      ds.flatMap fun d => ((counted d.2).map (·.1)).map fun k => (d.1, k) := by
    rw [paths, List.map_flatMap, List.map_flatMap]
    refine List.flatMap_congr fun d hd => ?_
    simp only [List.map_map]
    exact List.map_congr_left fun e he => descriptorField_path d.1 (h.undotted d hd e (List.mem_filter.1 he).1)
  have hpairs : (((paths ds).map (·.1)).map descriptorField).Nodup := by
    rw [hmap]
    refine List.nodup_flatMap.2 ⟨fun d hd => ?_, ?_⟩
    · exact (counted_nodup (h.once d hd)).map fun _ _ e => (Prod.mk.inj e).2
    · refine (List.pairwise_map.1 h.names).imp fun hne => ?_
      intro p hp hq
      obtain ⟨k, -, rfl⟩ := List.mem_map.1 hp
      obtain ⟨k', -, e⟩ := List.mem_map.1 hq
      exact hne (Prod.mk.inj e).1.symm
  exact hpairs.of_map

/-! ## Regrouping -/

/-- Fields written under the name of their descriptor. -/
def addFields (name : Text) (t : Table Text (Table Text Text)) (es : List (Text × Text)) :
    Table Text (Table Text Text) :=
  es.foldl (fun t e => t.alter name fun d => (d.getD .empty).insert e.1 e.2) t

theorem addFields_last {name : Text} {t : Table Text (Table Text Text)} {rows : List (Text × Table Text Text)}
    {d : Table Text Text} (hrows : name ∉ rows.map (·.1)) (ht : t.entries = rows ++ [(name, d)])
    (es : List (Text × Text)) : (addFields name t es).entries = rows ++ [(name, d.insertAll es)] := by
  induction es generalizing t d with
  | nil => exact ht
  | cons e es ih =>
    have hget : t.get? name = some d := Table.get?_of_mem (e := (name, d)) (by rw [ht]; simp)
    refine ih (t := t.alter name fun d => (d.getD .empty).insert e.1 e.2) (d := d.insert e.1 e.2) ?_
    rw [Table.alter, hget]
    show Table.write name (d.insert e.1 e.2) t.entries = _
    rw [ht, Table.write_last hrows]

theorem addFields_fresh {name : Text} {t : Table Text (Table Text Text)} (hname : name ∉ t.keys)
    (es : List (Text × Text)) :
    (addFields name t es).entries = t.entries ++ if es = [] then [] else [(name, .ofList es)] := by
  cases es with
  | nil => simp [addFields]
  | cons e es =>
    have hfirst : (t.alter name fun d => (d.getD .empty).insert e.1 e.2).entries =
        t.entries ++ [(name, Table.empty.insert e.1 e.2)] := by
      rw [Table.alter, Table.get?_eq_none hname]
      exact Table.write_of_fresh (Table.any_key_eq_false hname) _
    rw [if_neg (List.cons_ne_nil e es)]
    exact addFields_last hname hfirst es

/-- The texts that a table has for its names, each the text of its fields. -/
def fieldRows (ds : List (Text × List (Text × Text))) : List (Text × Table Text Text) :=
  ds.filterMap fun d => if counted d.2 = [] then none else some (d.1, .ofList (counted d.2))

/-- Descriptors that are apart are regrouped one by one. -/
theorem entries_addFields (t : Table Text (Table Text Text)) (h : Separate ds) (ht : ∀ d ∈ ds, d.1 ∉ t.keys) :
    (ds.foldl (fun t d => addFields d.1 t (counted d.2)) t).entries = t.entries ++ fieldRows ds := by
  induction ds generalizing t with
  | nil => simp [fieldRows]
  | cons d ds ih =>
    have hfresh := addFields_fresh (ht d (by simp)) (counted d.2)
    obtain ⟨hname, -⟩ := List.nodup_cons.1 h.names
    have hrest : ∀ d' ∈ ds, d'.1 ∉ (addFields d.1 t (counted d.2)).keys := by
      intro d' hd' hmem
      rw [Table.keys, hfresh, List.map_append] at hmem
      rcases List.mem_append.1 hmem with hmem | hmem
      · exact ht d' (List.mem_cons_of_mem d hd') hmem
      · split at hmem
        · cases hmem
        · exact hname (List.mem_map.2 ⟨d', hd', List.mem_singleton.1 hmem⟩)
    rw [List.foldl_cons, ih _ (h.of_sublist (List.sublist_cons_self d ds)) hrest, hfresh, List.append_assoc]
    congr 1
    simp only [fieldRows, List.filterMap_cons]
    split <;> rfl

def regroup (t : Table Text (Table Text Text)) (e : Text × Text) : Table Text (Table Text Text) :=
  t.alter (descriptorField e.1).1 fun d => (d.getD .empty).insert (descriptorField e.1).2 e.2

theorem descriptors_eq (es : List (Text × Text)) :
    descriptors es =
      (es.filter fun e => !(descriptorField e.1).1.isEmpty && counts e.1).foldl regroup .empty := by
  rw [List.foldl_filter]
  rfl

theorem foldl_paths (t : Table Text (Table Text Text)) (h : Separate ds) :
    (paths ds).foldl regroup t = ds.foldl (fun t d => addFields d.1 t (counted d.2)) t := by
  rw [paths, List.foldl_flatMap]
  refine List.foldl_ext _ _ t fun t d hd => ?_
  rw [List.foldl_map, addFields]
  refine List.foldl_ext _ _ t fun t e he => ?_
  rw [regroup, descriptorField_path d.1 (h.undotted d hd e (List.mem_filter.1 he).1)]

theorem descriptorText_ofList {es : List (Text × Text)} (h : ∀ k ∈ descriptorFields, (es.map (·.1)).count k ≤ 1) :
    descriptorText (.ofList (counted es)) = fieldText es := by
  have hentries : (Table.ofList (counted es)).entries = counted es :=
    Table.entries_ofList ((counted_nodup h).imp beq_eq_false_iff_ne.2)
  rw [← fieldText_counted, descriptorText, fieldText]
  congr 1
  funext k
  rw [Table.get?, hentries]

theorem described_rows (h : Separate ds) :
    (fieldRows ds).filterMap (fun d => (descriptorText d.2).map fun t => (d.1, t)) = described ds := by
  rw [fieldRows, List.filterMap_filterMap, described]
  refine List.filterMap_congr fun d hd => ?_
  split
  · rename_i hnone
    rw [fieldText_eq_none.2 hnone]
    rfl
  · rw [Option.bind_some, descriptorText_ofList (h.once d hd)]

theorem filter_described (p : Text → Bool) (ds : List (Text × List (Text × Text))) :
    (described ds).filter (fun e => p e.1) = described (ds.filter fun d => p d.1) := by
  induction ds with
  | nil => rfl
  | cons d ds ih =>
    rw [described] at ih ⊢
    rw [List.filterMap_cons, List.filter_cons]
    cases ht : fieldText d.2 with
    | none => by_cases hp : p d.1 = true <;> simp [hp, ht, ih, described]
    | some t => by_cases hp : p d.1 = true <;> simp [hp, ht, ih, described]

theorem mem_keyed {e : Text × Text} (h : Separate ds) (he : e ∈ keyedDescriptors descriptorRoot ds) :
    ∃ name field, e.1 = path name field ∧ descriptorField e.1 = (name, field) := by
  obtain ⟨d, hd, he⟩ := List.mem_flatMap.1 he
  obtain ⟨f, hf, rfl⟩ := List.mem_map.1 he
  exact ⟨d.1, f.1, rfl, descriptorField_path d.1 (h.undotted d hd f hf)⟩

theorem describedNames_keyed (h : Separate ds) :
    describedNames (tabulate (keyedDescriptors descriptorRoot ds)).entries.entries =
      (described ds).filter fun e => Key.isValid e.1 := by
  have hkeys : Separate (ds.filter fun d => Key.isValid d.1) := h.of_sublist List.filter_sublist
  have hpaths : ((tabulate (keyedDescriptors descriptorRoot ds)).entries.entries.filter fun e =>
      !(descriptorField e.1).1.isEmpty && counts e.1) = paths (ds.filter fun d => Key.isValid d.1) := by
    have hfilter : _ = paths (ds.filter fun d => Key.isValid d.1) := filter_keyed h id
    have htest : ∀ e ∈ keyedDescriptors descriptorRoot ds,
        (!(descriptorField e.1).1.isEmpty && counts e.1 && Key.isValid e.1) =
          (id (Key.isValid e.1) && counts e.1) := by
      intro e he
      obtain ⟨name, field, hpath, hfield⟩ := mem_keyed h he
      rw [hfield, hpath, isValid_fieldPath]
      cases name with
      | nil => simp [Key.isValid, Key.accepts]
      | cons c name => simp [Bool.and_comm]
    have honce := (nodup_paths hkeys).imp beq_eq_false_iff_ne.2
    rw [← hfilter, ← List.filter_congr htest] at honce ⊢
    rw [tabulate, Table.filter_ofList fun k => !(descriptorField k).1.isEmpty && counts k, List.filter_filter]
    exact Table.entries_ofList honce
  rw [describedNames, descriptors_eq, hpaths, foldl_paths _ hkeys,
    entries_addFields .empty hkeys (fun _ _ => List.not_mem_nil), filter_described Key.isValid]
  exact described_rows hkeys

theorem addAll_described (s : RejectedKeys) (ds : List (Text × List (Text × Text))) :
    s.addAll (ds.flatMap fun d => List.replicate (counted d.2).length d.1) = s.addAll ((described ds).map (·.1)) := by
  induction ds generalizing s with
  | nil => rfl
  | cons d ds ih =>
    rw [List.flatMap_cons, Distinct.addAll_append, ih]
    simp only [described, List.filterMap_cons]
    cases ht : fieldText d.2 with
    | none =>
      rw [fieldText_eq_none.1 ht]
      rfl
    | some t =>
      obtain ⟨n, hn⟩ : ∃ n, (counted d.2).length = n + 1 := by
        refine Nat.exists_eq_succ_of_ne_zero fun hz => ?_
        rw [fieldText_eq_none.2 (List.length_eq_zero_iff.1 hz)] at ht
        cases ht
      rw [hn, Distinct.addAll_replicate]
      rfl

theorem rejectedNames_keyed (h : Separate ds) (s : RejectedKeys) :
    s.addAll (rejectedNames (tabulate (keyedDescriptors descriptorRoot ds)).rejected.toList) =
      s.addAll (((described ds).filter fun e => !Key.isValid e.1).map (·.1)) := by
  have hothers : Separate (ds.filter fun d => !Key.isValid d.1) := h.of_sublist List.filter_sublist
  have hpaths : ((tabulate (keyedDescriptors descriptorRoot ds)).rejected.toList.filter fun k =>
      (descriptorRoot ++ ".").isPrefixOf k && counts k) =
        (paths (ds.filter fun d => !Key.isValid d.1)).map (·.1) := by
    have htest : ∀ e ∈ keyedDescriptors descriptorRoot ds,
        ((descriptorRoot ++ ".").isPrefixOf e.1 && counts e.1 && !Key.isValid e.1) =
          ((!Key.isValid e.1) && counts e.1) := by
      intro e he
      obtain ⟨name, field, hpath, -⟩ := mem_keyed h he
      have hroot : (descriptorRoot ++ ".").isPrefixOf e.1 = true := by
        rw [hpath]
        exact List.isPrefixOf_iff_prefix.2 ⟨_, rfl⟩
      rw [hroot, Bool.true_and, Bool.and_comm]
    have honce := (nodup_paths hothers).imp beq_eq_false_iff_ne.2
    rw [← filter_keyed h (!·), ← List.filter_congr htest] at honce ⊢
    have hdedup := Distinct.filter_dedup (fun k => (descriptorRoot ++ ".").isPrefixOf k && counts k)
      (((keyedDescriptors descriptorRoot ds).filter fun e => !Key.isValid e.1).map (·.1))
    refine hdedup.trans ?_
    rw [List.filter_map, List.filter_filter]
    exact Distinct.toList_ofList honce
  have hnames : rejectedNames (tabulate (keyedDescriptors descriptorRoot ds)).rejected.toList =
      (ds.filter fun d => !Key.isValid d.1).flatMap fun d => List.replicate (counted d.2).length d.1 := by
    refine (congrArg (List.map fun key => (descriptorField key).1) hpaths).trans ?_
    rw [paths, List.map_flatMap, List.map_flatMap]
    refine List.flatMap_congr fun d hd => ?_
    have hsame : ∀ e ∈ counted d.2, (descriptorField (path d.1 e.1)).1 = d.1 := fun e he => by
      rw [descriptorField_path d.1 (hothers.undotted d hd e (List.mem_filter.1 he).1)]
    rw [List.map_map, List.map_map, ← List.map_const']
    exact List.map_congr_left hsame
  rw [hnames, addAll_described, filter_described fun k => !Key.isValid k]

/-- The line scan of a list of descriptors offers their texts one by one. -/
theorem addDescriptors_literal (c : Collection) (hdepth : 1 ≤ c.limits.maxDepth) {l : Listing Descriptor}
    (hfits : ∀ d ∈ l.items, d.fits c.limits = true) (hlen : l.literal.length ≤ c.limits.maxContentLength)
    (h : Separate l.named) :
    (addDescriptors c l.literal).value = (described l.named).foldl (fun c e => c.add e.1 e.2) c := by
  have hrun := Literal.flatten_run descriptorRoot hlen
  rw [Literal.descriptors_entries hdepth (by decide) hfits] at hrun
  generalize l.named = ds at hrun h ⊢
  have hadded := describedNames_keyed h
  have hrejected := rejectedNames_keyed h c.rejected
  generalize tabulate (keyedDescriptors descriptorRoot ds) = f at hrun hadded hrejected
  have hscratch : scratch c l.literal =
      { file := c.file, limits := c.limits, keys := .ofList f.entries.entries, rejected := .ofList f.rejected.toList } := by
    rw [scratch, Collection.addLiteral, Logged.value_bind]
    simp only [hrun]
    rfl
  have hkeys : (Table.ofList f.entries.entries).entries = f.entries.entries := Table.entries_ofList f.entries.distinct
  have hothers : (Distinct.ofList f.rejected.toList).toList = f.rejected.toList :=
    Distinct.toList_ofList f.rejected.distinct
  rw [addDescriptors_eq, hscratch, Collection.foldl_add]
  simp only [hkeys, hothers, hadded, hrejected, List.append_nil]

end LineScan

/-! ## Trees -/

namespace KeyRule

open TypeScript (Node)

/-- The node of a property that is written with a colon. -/
structure IsPair (p : Node) (name : Name) (isValue : Node → Prop) : Prop where
  kind : p.kind = .pair
  key : ∃ k, p.child? .key = some k ∧ IsName k name
  value : ∃ v, p.child? .value = some v ∧ isValue v

/-- The node of an object whose parts, comments aside, are these. -/
def IsObject {α : Type} (isItem : Node → α → Prop) (o : Node) (items : List α) : Prop :=
  o.kind = .object ∧ List.Forall₂ isItem o.parts items

def IsField (p : Node) (f : Field) : Prop := IsPair p f.head.name fun v => IsString v f.string

def IsDescriptor (p : Node) (d : Descriptor) : Prop := IsPair p d.head.name fun v => IsObject IsField v d.fields.items

/-- The node of a call with a list of descriptors, which is its only argument. -/
structure IsCall (n : Node) (l : Listing Descriptor) : Prop where
  kind : n.kind = .call
  function : ∃ f, n.child? .function = some f ∧ f.kind = .identifier ∧ f.text = CallKind.enumerated.callee
  argument : ∃ a o, n.child? .arguments = some a ∧ a.kind = .arguments ∧ a.parts = [o] ∧
    IsObject IsDescriptor o l.items ∧ o.text = l.literal

/-- Names and values of an object's properties, in order. -/
theorem pairs_isObject {α : Type} {name : α → Name} {isValue : α → Node → Prop} {o : Node} {items : List α}
    (h : IsObject (fun p a => IsPair p (name a) (isValue a)) o items) :
    List.Forall₂ (fun q a => q.1 = some (name a).denoted ∧ isValue a q.2) (Shape.pairs o) items := by
  obtain ⟨-, hparts⟩ := h
  have hpairs : o.children.filter (·.kind == .pair) = o.parts.filter (·.kind == .pair) := by
    rw [Node.parts, List.filter_filter]
    refine List.filter_congr fun n _ => ?_
    cases n.kind <;> rfl
  rw [Shape.pairs, hpairs]
  generalize o.parts = ps at hparts
  induction hparts with
  | nil => exact .nil
  | cons hp _ ih =>
    obtain ⟨k, hk, hname⟩ := hp.key
    obtain ⟨v, hv, hvalue⟩ := hp.value
    rw [List.filter_cons, if_pos (by simp [hp.kind]), List.filterMap_cons, hv, hk]
    exact .cons ⟨propertyName_isName hname, hvalue⟩ ih

theorem textProperty_isObject {o : Node} {fs : List Field} (h : IsObject IsField o fs) (k : Text) :
    Shape.textProperty? o k = ((fs.map Field.entry).find? (·.1 == k)).map (·.2) := by
  have hpairs := pairs_isObject h
  rw [Shape.textProperty?, Shape.property?]
  generalize Shape.pairs o = qs at hpairs
  clear h
  induction hpairs with
  | nil => rfl
  | @cons q f _ _ hq _ ih =>
    obtain ⟨hname, hstring⟩ := hq
    have htest : (q.1 == some k) = (f.entry.1 == k) := by
      rw [hname]
      rfl
    rw [List.map_cons, List.find?_cons, List.find?_cons, htest]
    by_cases hk : (f.entry.1 == k) = true
    · simp only [hk]
      exact stringValue_isString hstring
    · simp only [hk]
      exact ih

theorem descriptorText_isObject {o : Node} {fs : List Field} (h : IsObject IsField o fs) :
    descriptorText o = fieldText (fs.map Field.entry) := by
  rw [descriptorText, fieldText]
  congr 1
  funext k
  exact textProperty_isObject h k

/-- The rule offers the texts of descriptors one by one. -/
theorem foldl_addDescriptor {o : Node} {ds : List Descriptor} (h : IsObject IsDescriptor o ds) (c : Collection) :
    (Shape.pairs o).foldl addDescriptor c =
      (described (ds.map fun d => (d.name, d.entries))).foldl (fun c e => c.add e.1 e.2) c := by
  have hpairs := pairs_isObject h
  generalize Shape.pairs o = qs at hpairs
  clear h
  induction hpairs generalizing c with
  | nil => rfl
  | @cons q d _ _ hq _ ih =>
    obtain ⟨hname, hobject⟩ := hq
    have hstep : addDescriptor c q = (fieldText d.entries).elim c (c.add d.name) := by
      rw [addDescriptor, hname, asObject_eq hobject.1, Option.bind_some, descriptorText_isObject hobject]
      show _ = (fieldText (d.fields.items.map Field.entry)).elim c (c.add d.name)
      cases fieldText (d.fields.items.map Field.entry) <;> rfl
    rw [List.foldl_cons, hstep, ih, List.map_cons]
    simp only [described, List.filterMap_cons]
    cases fieldText d.entries <;> rfl

theorem firstObject_isCall {n : Node} {l : Listing Descriptor} (h : IsCall n l) :
    ∃ o, Shape.firstObject? n = some o ∧ IsObject IsDescriptor o l.items ∧ o.text = l.literal := by
  obtain ⟨a, o, ha, hkind, hparts, hobject, htext⟩ := h.argument
  refine ⟨o, ?_, hobject, htext⟩
  simp only [Shape.firstObject?, Shape.arguments, ha, hkind, if_true, hparts]
  exact asObject_eq hobject.1

/-- The rule on a call's tree and the line scan of its argument come to the same, whatever
the descriptors are called: those with keys for names are added with their texts, the
names of the others are rejected, and there is no warning. -/
theorem enumeratedCall_scanned {n : Node} {l : Listing Descriptor} (hn : IsCall n l) (hl : Separate l.named)
    (c : Collection) (hdepth : 1 ≤ c.limits.maxDepth) (hfits : ∀ d ∈ l.items, d.fits c.limits = true)
    (hlen : l.literal.length ≤ c.limits.maxContentLength) :
    enumeratedCall.applies n = true ∧
      ∃ o, Shape.firstObject? n = some o ∧
        (enumeratedCall.gather n c).value = (LineScan.addDescriptors c o.text).value ∧
        (enumeratedCall.gather n c).value =
          { c with
            keys := c.keys.insertAll ((described l.named).filter fun e => Key.isValid e.1)
            rejected := c.rejected.addAll (((described l.named).filter fun e => !Key.isValid e.1).map (·.1)) } := by
  obtain ⟨o, hfirst, hobject, htext⟩ := firstObject_isCall hn
  obtain ⟨f, hf, hidentifier, hcallee⟩ := hn.function
  have happlies : enumeratedCall.applies n = true := by
    have hname : Shape.callee? n = some CallKind.enumerated.callee := by
      rw [Shape.callee?, hf, Option.filter_some, if_pos (by simp [hidentifier]), Option.map_some, hcallee]
    simp [applies, enumeratedCall, callsWithObject, hn.kind, hname, hfirst]
  have hgather : (enumeratedCall.gather n c).value =
      (described l.named).foldl (fun c e => c.add e.1 e.2) c := by
    show (((Shape.firstObject? n).elim [] Shape.pairs).foldl addDescriptor c) = _
    rw [hfirst]
    exact foldl_addDescriptor hobject c
  refine ⟨happlies, o, hfirst, ?_, ?_⟩
  · rw [hgather, htext, LineScan.addDescriptors_literal c hdepth hfits hlen hl]
  · rw [hgather, Collection.foldl_add]

/-! ### A call -/

def sampleListing : Listing Descriptor :=
  .more
    ⟨⟨[], .quoted (.single "a.b" (by decide +kernel)) rfl, [], [.space]⟩,
      .more ⟨⟨[], .bare 'i' "d" rfl rfl, [], [.space]⟩, .single "x" (by decide +kernel)⟩ []
        (.last
          ⟨⟨[.space], .quoted (.single "defaultMessage" (by decide +kernel)) rfl, [], [.space]⟩,
            ⟨'"', "Hi", Quoted.isQuote_double, by decide +kernel⟩⟩
          [])⟩
    []
    (.last
      ⟨⟨[.space, .line " none" (by decide), .space], .quoted (.single "" (by decide +kernel)) rfl, [], [.space]⟩,
        .last ⟨⟨[], .bare 'i' "d" rfl rfl, [], [.space]⟩, ⟨'`', "y", Quoted.isQuote_template, by decide +kernel⟩⟩ []⟩
      [])

def sampleCall : Node :=
  let node :=
    nodeOf "defineMessages(\x7b'a.b': \x7bid: 'x', 'defaultMessage': \"Hi\"\x7d, // none\n '': \x7bid: `y`\x7d\x7d);"
  node .call none 0 82
    [node .identifier (some .function) 0 14 [],
      node .arguments (some .arguments) 14 68
        [node .object none 15 66
          [node .pair none 16 40
            [node .string (some .key) 16 5 [],
              node .object (some .value) 23 33
                [node .pair none 24 7
                  [node .propertyIdentifier (some .key) 24 2 [], node .string (some .value) 28 3 []],
                  node .pair none 33 22
                    [node .string (some .key) 33 16 [], node .string (some .value) 51 4 []]]],
            node .comment none 58 7 [],
            node .pair none 67 13
              [node .string (some .key) 67 2 [],
                node .object (some .value) 71 9
                  [node .pair none 72 7
                    [node .propertyIdentifier (some .key) 72 2 [], node .template (some .value) 76 3 []]]]]]]

theorem sampleCall_isCall : IsCall sampleCall sampleListing where
  kind := rfl
  function := ⟨_, rfl, rfl, by decide +kernel⟩
  argument := by
    refine ⟨_, _, rfl, rfl, rfl, ⟨rfl, .cons ⟨rfl, ⟨_, rfl, rfl, by decide +kernel⟩, _, rfl, rfl, ?_⟩
      (.cons ⟨rfl, ⟨_, rfl, rfl, by decide +kernel⟩, _, rfl, rfl, ?_⟩ .nil)⟩, by decide +kernel⟩
    · exact .cons ⟨rfl, ⟨_, rfl, rfl, by decide +kernel⟩, _, rfl, by decide +kernel, rfl⟩
        (.cons ⟨rfl, ⟨_, rfl, rfl, by decide +kernel⟩, _, rfl, by decide +kernel, rfl⟩ .nil)
    · exact .cons ⟨rfl, ⟨_, rfl, rfl, by decide +kernel⟩, _, rfl, by decide +kernel, rfl, rfl⟩ .nil

theorem enumeratedCall_scanned_sample :
    ∃ o, Shape.firstObject? sampleCall = some o ∧
      (enumeratedCall.gather sampleCall { file := "a.ts" }).value =
        (LineScan.addDescriptors { file := "a.ts" } o.text).value ∧
      (enumeratedCall.gather sampleCall { file := "a.ts" }).value.keys.entries =
        [(("a.b" : Text), ("Hi" : Text))] ∧
      (enumeratedCall.gather sampleCall { file := "a.ts" }).value.rejected.toList = [[]] := by
  have hseparate : Separate sampleListing.named :=
    ⟨by decide +kernel, by decide +kernel, by decide +kernel⟩
  obtain ⟨-, o, hfirst, hsame, hall⟩ := enumeratedCall_scanned sampleCall_isCall hseparate { file := "a.ts" }
    (by decide) (by decide +kernel) (by decide +kernel)
  refine ⟨o, hfirst, hsame, ?_, ?_⟩
  · rw [hall]
    decide +kernel
  · rw [hall]
    decide +kernel

/-! ### Names that are read differently -/

/-- A field whose bare name starts with a letter beyond ASCII. -/
def foreignCall : Node :=
  let node := nodeOf "defineMessages(\x7ba: \x7béid: 'x'\x7d\x7d);"
  node .call none 0 31
    [node .identifier (some .function) 0 14 [],
      node .arguments (some .arguments) 14 17
        [node .object none 15 15
          [node .pair none 16 13
            [node .propertyIdentifier (some .key) 16 1 [],
              node .object (some .value) 19 10
                [node .pair none 20 8
                  [node .propertyIdentifier (some .key) 20 3 [], node .string (some .value) 25 3 []]]]]]]

/-- A name continued on the next line, which starts behind a carriage return and a line feed. -/
def continuedCall : Node :=
  let node := nodeOf "defineMessages(\x7b'a\\\r\nb': \x7bid: 'x'\x7d\x7d);"
  node .call none 0 36
    [node .identifier (some .function) 0 14 [],
      node .arguments (some .arguments) 14 22
        [node .object none 15 20
          [node .pair none 16 18
            [node .string (some .key) 16 7 [],
              node .object (some .value) 25 9
                [node .pair none 26 7
                  [node .propertyIdentifier (some .key) 26 2 [], node .string (some .value) 30 3 []]]]]]]

/-- The keys that the rule gathers, and those that the line scan finds in the argument. -/
def keysBothWays (n : Node) : List (Text × Text) × Option (List (Text × Text)) :=
  ((enumeratedCall.gather n { file := "a.ts" }).value.keys.entries,
    (Shape.firstObject? n).map fun o => (LineScan.addDescriptors { file := "a.ts" } o.text).value.keys.entries)

/-- The line scan steps into the middle of the one name, where it finds the field `id`, and
does not find the end of the other. -/
theorem enumeratedCall_scanned_differs :
    keysBothWays foreignCall = ([], some [(("a" : Text), ("x" : Text))]) ∧
      keysBothWays continuedCall = ([(("ab" : Text), ("x" : Text))], some []) := by
  decide +kernel

end KeyRule

end MessageCatalog.Extraction
