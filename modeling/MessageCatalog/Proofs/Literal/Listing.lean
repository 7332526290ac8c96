/-
  MessageCatalog.Proofs.Literal.Listing — flat objects, and objects of flat objects.

  A descriptor is a name with a flat object of strings. Its name may denote nothing, which
  an object in `Members` may not, and its fields are strings and not sums: a sum is no
  string to a reader of syntax trees.

  Proved: the scan of a list of descriptors below a base finds their texts in order, each
  under the base, the descriptor's name and the field's name (`descriptors_entries`).
-/

import MessageCatalog.Proofs.Literal.Flatten

namespace MessageCatalog.Literal

/-! ## Layout -/

namespace Source

/-- Items with commas between them, and perhaps one behind the last. -/
inductive Listing (α : Type) where
  | done (gap : Gap)
  | last (item : α) (gap : Gap)
  | more (item : α) (gap : Gap) (rest : Listing α)

namespace Listing

variable {α : Type}

def items : Listing α → List α
  | .done _ => []
  | .last a _ => [a]
  | .more a _ rest => a :: rest.items

def print (p : α → Text) : Listing α → Text
  | .done gap => gap.print
  | .last a gap => p a ++ gap.print
  | .more a gap rest => p a ++ (gap.print ++ (',' : Code) :: rest.print p)

end Listing

structure Field where
  head : Head
  string : Quoted

namespace Field

def print (f : Field) : Text := f.head.print ++ f.string.print

def entry (f : Field) : Text × Text := (f.head.name.denoted, f.string.denoted)

def fits (limits : Limits) (f : Field) : Bool :=
  f.head.fits limits && f.string.body.length < limits.maxValueLength

end Field

structure Descriptor where
  head : Head
  fields : Listing Field

namespace Descriptor

def name (d : Descriptor) : Text := d.head.name.denoted

def entries (d : Descriptor) : List (Text × Text) := d.fields.items.map Field.entry

def print (d : Descriptor) : Text :=
  d.head.print ++ ('{' : Code) :: (d.fields.print Field.print ++ [('}' : Code)])

def fits (limits : Limits) (d : Descriptor) : Bool := d.head.fits limits && d.fields.items.all (Field.fits limits)

end Descriptor

/-- Descriptors as their names with names and texts of their fields. -/
def Listing.named (ds : Listing Descriptor) : List (Text × List (Text × Text)) :=
  ds.items.map fun d => (d.name, d.entries)

def Listing.literal (ds : Listing Descriptor) : Text :=
  ('{' : Code) :: (ds.print Descriptor.print ++ [('}' : Code)])

end Source

open Source

/-! ## Lists -/

section

variable {α : Type} {p : α → Text} (l : Listing α)

theorem closingBrace_listing {depth : Int}
    (h : ∀ a ∈ l.items, ∀ t, closingBrace depth (p a ++ t) = closingBrace depth t) (t : Text) :
    closingBrace depth (l.print p ++ t) = closingBrace depth t := by
  induction l with
  | done gap => exact closingBrace_gap gap depth t
  | last a gap => rw [Listing.print, List.append_assoc, h a (by simp [Listing.items]), closingBrace_gap]
  | more a gap rest ih =>
    rw [Listing.print, List.append_assoc, h a (by simp [Listing.items]), List.append_assoc, closingBrace_gap,
      List.cons_append, closingBrace_cons (by decide) (by decide) (by decide) (by decide)]
    exact ih fun b hb => h b (List.mem_cons_of_mem a hb)

/-- What each item emits, one after the other. -/
theorem scan_listing {limits : Limits} {base : Text} {depth : Nat} {emit : α → List Emission}
    (h : ∀ a ∈ l.items, ∀ t, Ends t →
      scan limits base depth (p a ++ t) = emit a ++ scan limits base depth t) :
    scan limits base depth (l.print p) = l.items.flatMap emit := by
  induction l with
  | done gap => exact scan_blank (skipTrivia_gap_nil gap)
  | last a gap =>
    rw [Listing.print, h a (by simp [Listing.items]) _ (.inl (skipTrivia_gap_nil gap)),
      scan_blank (skipTrivia_gap_nil gap), Listing.items, List.flatMap_singleton, List.append_nil]
  | more a gap rest ih =>
    have hends : Ends (gap.print ++ (',' : Code) :: rest.print p) := by
      rw [Ends, skipTrivia_gap, skipTrivia_cons (by decide) (by decide)]
      exact .inr ⟨rest.print p, rfl⟩
    rw [Listing.print, h a (by simp [Listing.items]) _ hends, scan_separator, Listing.items, List.flatMap_cons,
      ih fun b hb => h b (List.mem_cons_of_mem a hb)]

end

/-! ## Fields -/

theorem length_escape_le (t : Text) : (escape t).1.length ≤ 1 := by
  unfold escape
  repeat' split
  all_goals simp

theorem length_decode_le (t : Text) : (decode t).length ≤ t.length := by
  fun_induction decode t with
  | case1 => simp
  | case2 c r _ ih =>
    have h := length_escape_le r
    simp only [List.length_append, List.length_cons, List.length_drop] at *
    omega
  | case3 c r _ ih => simpa using ih

theorem closingBrace_field (f : Field) (depth : Int) (t : Text) :
    closingBrace depth (f.print ++ t) = closingBrace depth t := by
  rw [Field.print, List.append_assoc, closingBrace_head, closingBrace_string]

theorem scan_field {limits : Limits} (base : Text) (depth : Nat) {f : Field} (hf : f.fits limits = true) {t : Text}
    (ht : Ends t) :
    scan limits base depth (f.print ++ t) =
      [.leaf depth (Key.under base f.entry.1) f.entry.2] ++ scan limits base depth t := by
  simp only [Field.fits, Bool.and_eq_true, decide_eq_true_eq] at hf
  obtain ⟨hhead, hlen⟩ := hf
  have hvalue : (Leaf.text f.string []).fits limits = true := by
    have := length_decode_le f.string.body
    simp only [Leaf.fits, List.map_nil, List.all_cons, List.all_nil, List.flatMap_nil, List.append_nil,
      Bool.and_true, Bool.and_eq_true, decide_eq_true_eq, Quoted.denoted]
    omega
  have hleaf := scan_leaf base depth hhead hvalue ht
  simp only [Leaf.print, Leaf.denoted?, List.flatMap_nil, List.append_nil] at hleaf
  rw [Field.print, List.append_assoc, hleaf]
  rfl

/-! ## Descriptors -/

theorem closingBrace_fields (d : Descriptor) {depth : Int} (t : Text) :
    closingBrace depth (d.fields.print Field.print ++ t) = closingBrace depth t :=
  closingBrace_listing d.fields (fun f _ => closingBrace_field f depth) t

theorem closingBrace_descriptor (d : Descriptor) {depth : Int} (hd : 1 ≤ depth) (t : Text) :
    closingBrace depth (d.print ++ t) = closingBrace depth t := by
  rw [Descriptor.print, List.append_assoc, closingBrace_head, List.cons_append, closingBrace_open, List.append_assoc,
    closingBrace_fields, List.singleton_append, closingBrace_close, if_neg (by omega), Int.add_sub_cancel]

theorem closingBrace_descriptors (ds : Listing Descriptor) (t : Text) :
    closingBrace 1 (ds.print Descriptor.print ++ ('}' : Code) :: t) = some (('}' : Code) :: t) := by
  rw [closingBrace_listing ds fun d _ => closingBrace_descriptor d (Int.le_refl 1), closingBrace_close, if_pos rfl]

theorem scan_fields {limits : Limits} (base : Text) (depth : Nat) {d : Descriptor}
    (hd : ∀ f ∈ d.fields.items, f.fits limits = true) :
    scan limits base depth (d.fields.print Field.print) =
      d.entries.map fun e => .leaf depth (Key.under base e.1) e.2 := by
  have hall : scan limits base depth (d.fields.print Field.print) =
      d.fields.items.flatMap fun f => [.leaf depth (Key.under base f.entry.1) f.entry.2] :=
    scan_listing d.fields fun f hf t ht => scan_field base depth (hd f hf) ht
  rw [hall, Descriptor.entries, List.map_map]
  exact List.map_eq_flatMap.symm

theorem scan_descriptor {limits : Limits} (hdepth : 1 ≤ limits.maxDepth) (base : Text) {d : Descriptor}
    (hd : d.fits limits = true) (t : Text) :
    scan limits base 0 (d.print ++ t) =
      (d.entries.map fun e => .leaf 1 (Key.under (Key.under base d.name) e.1) e.2) ++ scan limits base 0 t := by
  simp only [Descriptor.fits, Bool.and_eq_true, List.all_eq_true] at hd
  have hclose : closingBrace 1 (d.fields.print Field.print ++ ('}' : Code) :: t) = some (('}' : Code) :: t) := by
    rw [closingBrace_fields, closingBrace_close, if_pos rfl]
  rw [Descriptor.print, List.append_assoc, List.cons_append, List.append_assoc, List.singleton_append,
    scan_braced base 0 hd.1 hclose, if_neg (by omega), Nat.zero_add]
  exact congrArg (· ++ scan limits base 0 t) (scan_fields _ 1 hd.2)

def Source.keyedDescriptors (base : Text) (ds : List (Text × List (Text × Text))) : List (Text × Text) :=
  ds.flatMap fun d => d.2.map fun e => (base ++ ('.' : Code) :: (d.1 ++ ('.' : Code) :: e.1), e.2)

theorem descriptors_entries {limits : Limits} (hdepth : 1 ≤ limits.maxDepth) {base : Text} (hbase : base ≠ [])
    {ds : Listing Descriptor} (hds : ∀ d ∈ ds.items, d.fits limits = true) :
    (emissions limits base ds.literal).filterMap Emission.entry? =
      keyedDescriptors base ds.named := by
  have hall : emissions limits base ds.literal =
      ds.items.flatMap fun d => d.entries.map fun e => .leaf 1 (Key.under (Key.under base d.name) e.1) e.2 := by
    have hscan := @emissions_braced limits _ _ (closingBrace_descriptors ds []) base []
    rw [scan_listing ds fun d hd t _ => scan_descriptor hdepth base (hds d hd) t] at hscan
    exact hscan
  have hkey : ∀ n k : Text, Key.under (Key.under base n) k = base ++ ('.' : Code) :: (n ++ ('.' : Code) :: k) := by
    intro n k
    rw [under_below hbase, under_below (by simp), List.append_assoc, List.cons_append]
  rw [hall, List.filterMap_flatMap, keyedDescriptors, Listing.named, List.flatMap_map]
  congr 1
  funext d
  rw [List.filterMap_map]
  simp only [hkey]
  exact congrFun List.filterMap_eq_map d.entries

end MessageCatalog.Literal
