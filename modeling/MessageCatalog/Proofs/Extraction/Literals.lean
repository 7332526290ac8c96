/-
  MessageCatalog.Proofs.Extraction.Literals — the object literals that a tree's rules
  flatten, and what is noted of them.

  Four of the rules hand literals to the flattener. Only that can end in a warning, and the
  warning depends on nothing but the length of the literal.

  Proved: the warnings of a tree are one note for each of its literals that is too long,
  in the order of the text (`warnings_literals`).
-/

import MessageCatalog.Proofs.Extraction.Gathered

namespace MessageCatalog.Extraction

open TypeScript (Node)

/-! ## Notes -/

/-- What is noted of a literal that is not scanned. -/
def sizeNote (literal : Text) : Text := "Literal too large (" ++ Text.ofNat literal.length ++ " chars), not scanned"

def sizeNotes (limits : Limits) (literals : List Text) : List Text :=
  (literals.filter fun t => limits.maxContentLength < t.length).map sizeNote

theorem sizeNotes_nil (limits : Limits) : sizeNotes limits [] = [] := rfl

theorem sizeNotes_append (limits : Limits) (ts us : List Text) :
    sizeNotes limits (ts ++ us) = sizeNotes limits ts ++ sizeNotes limits us := by
  rw [sizeNotes, List.filter_append, List.map_append, sizeNotes, sizeNotes]

theorem sizeNotes_flatMap {α : Type} (limits : Limits) (f : α → List Text) (xs : List α) :
    sizeNotes limits (xs.flatMap f) = xs.flatMap fun x => sizeNotes limits (f x) := by
  induction xs with
  | nil => rfl
  | cons x xs ih => rw [List.flatMap_cons, sizeNotes_append, ih, List.flatMap_cons]

theorem sizeNotes_eq_nil {limits : Limits} {literals : List Text} :
    sizeNotes limits literals = [] ↔ ∀ t ∈ literals, t.length ≤ limits.maxContentLength := by
  simp [sizeNotes, List.filter_eq_nil_iff]

/-! ## Steps -/

/-- A step that leaves the limits and adds the notes of these literals to the warnings. -/
structure Notes (literals : List Text) (c d : Collection) : Prop where
  limits : d.limits = c.limits
  warnings : d.warnings = c.warnings ++ sizeNotes c.limits literals

namespace Notes

variable {c : Collection}

theorem refl (c : Collection) : Notes [] c c := ⟨rfl, (List.append_nil _).symm⟩

theorem trans {ts us : List Text} {d e : Collection} (h : Notes ts c d) (h' : Notes us d e) :
    Notes (ts ++ us) c e := by
  refine ⟨h'.limits.trans h.limits, ?_⟩
  rw [h'.warnings, h.warnings, h.limits, sizeNotes_append, List.append_assoc]

theorem foldl {α : Type} {f : Collection → α → Collection} {literals : α → List Text}
    (hf : ∀ c x, Notes (literals x) c (f c x)) (c : Collection) (xs : List α) :
    Notes (xs.flatMap literals) c (xs.foldl f c) := by
  induction xs generalizing c with
  | nil => exact refl c
  | cons x xs ih => exact (hf c x).trans (ih (f c x))

theorem foldl_none {α : Type} {f : Collection → α → Collection} (hf : ∀ c x, Notes [] c (f c x)) (c : Collection)
    (xs : List α) : Notes [] c (xs.foldl f c) := by
  have h : Notes (xs.flatMap fun _ => []) c (xs.foldl f c) := foldl hf c xs
  rwa [List.flatMap_eq_nil_iff.2 fun _ _ => rfl] at h

theorem add (c : Collection) (k v : Text) : Notes [] c (c.add k v) := by
  rw [Collection.add]
  split <;> exact ⟨rfl, (List.append_nil _).symm⟩

theorem setPlugin (c : Collection) (id : Option Text) : Notes [] c (c.setPlugin id) := by
  rw [Collection.setPlugin.eq_def]
  split <;> exact ⟨rfl, (List.append_nil _).symm⟩

theorem addLiteral (c : Collection) (literal base : Text) : Notes [literal] c (c.addLiteral literal base).value := by
  by_cases h : literal.length ≤ c.limits.maxContentLength
  · have hnotes : sizeNotes c.limits [literal] = [] := sizeNotes_eq_nil.2 (by simpa using h)
    rw [Collection.addLiteral, Logged.value_bind, Literal.flatten_run base h]
    exact ⟨rfl, by rw [hnotes]; exact (List.append_nil _).symm⟩
  · have hnotes : sizeNotes c.limits [literal] = [sizeNote literal] := by simp [sizeNotes, Nat.lt_of_not_le h]
    have hflatten : (Literal.flatten c.limits base literal).run.value =
        .error (.literalTooLarge c.limits.maxContentLength literal.length) := by
      rw [Literal.flatten, if_pos (Nat.lt_of_not_le h)]
      rfl
    rw [Collection.addLiteral, Logged.value_bind, hflatten]
    exact ⟨rfl, by rw [hnotes]; rfl⟩

end Notes

/-! ## Rules -/

namespace KeyRule

/-- The literal in the property of a call's object. -/
def propertyLiteral (k : CallKind) (n : Node) : List Text :=
  (((Shape.firstObject? n).bind fun o => Shape.objectProperty? o k.property).map (·.text)).toList

/-- The literals that exported constants are given. -/
def exportedLiterals (n : Node) : List Text := ((exportedDeclarators n).filterMap messagesObject?).map (·.text)

/-- Every rule, with the literals it flattens. -/
def flattening : List (KeyRule × (Node → List Text)) :=
  [(definitionCall, propertyLiteral .definition), (resourceCall, propertyLiteral .resource),
    (overrideCall, propertyLiteral .override), (enumeratedCall, fun _ => []), (exportedMessages, exportedLiterals),
    (inlineCall, fun _ => []), (translatedElement, fun _ => []), (typeDeclaration, fun _ => [])]

theorem notes_gatherProperty (k : CallKind) (n : Node) (c : Collection) :
    Notes (propertyLiteral k n) c (gatherProperty k n c).value := by
  rw [propertyLiteral, gatherProperty]
  cases (Shape.firstObject? n).bind fun o => Shape.objectProperty? o k.property with
  | none => exact .refl c
  | some literal => exact .addLiteral c literal.text []

theorem notes_addDescriptor (c : Collection) (p : Option Text × Node) : Notes [] c (addDescriptor c p) := by
  rw [addDescriptor]
  split
  · exact .add c _ _
  · exact .refl c

theorem notes_exported (n : Node) (c : Collection) :
    Notes (exportedLiterals n) c (exportedMessages.gather n c).value := by
  have h := Notes.foldl (f := fun c (o : Node) => (c.addLiteral o.text).value) (fun c o => .addLiteral c o.text []) c
    ((exportedDeclarators n).filterMap messagesObject?)
  simp only [exportedMessages, Logged.value_foldlM, exportedLiterals, List.map_eq_flatMap]
  exact h

theorem notes_typeDeclaration (n : Node) (c : Collection) : Notes [] c (typeDeclaration.gather n c).value := by
  show Notes [] c ((typedKeys? n).elim c _)
  cases typedKeys? n with
  | none => exact .refl c
  | some p =>
    have hplugin := Notes.setPlugin c (Shape.literalType? p.1)
    show Notes [] c (if p.2.kind = .objectType then _ else _)
    split
    · exact hplugin.trans (.foldl_none (fun c (e : Text × Text) => .add c e.1 e.2) _ _)
    · exact hplugin

theorem notes_gather {r : KeyRule × (Node → List Text)} (hr : r ∈ flattening) (n : Node) (c : Collection) :
    Notes (r.2 n) c (r.1.gather n c).value := by
  simp only [flattening, List.mem_cons, List.not_mem_nil, or_false] at hr
  rcases hr with rfl | rfl | rfl | rfl | rfl | rfl | rfl | rfl
  · exact (Notes.setPlugin c _).trans (notes_gatherProperty .definition n _)
  · exact notes_gatherProperty .resource n c
  · exact notes_gatherProperty .override n c
  · exact .foldl_none notes_addDescriptor c _
  · exact notes_exported n c
  · show Notes [] c ((inlineKey? n).elim c _)
    cases inlineKey? n with
    | none => exact .refl c
    | some e => exact .add c e.1 e.2
  · exact .foldl_none (fun c k => .add c k k) c _
  · exact notes_typeDeclaration n c

end KeyRule

/-! ## Trees -/

/-- The literals that are flattened at a node. -/
def literalsAt (n : Node) : List Text :=
  KeyRule.flattening.flatMap fun r => if r.1.applies n then r.2 n else []

def literals (root : Node) : List Text := root.preorder.flatMap literalsAt

theorem warnings_sitesAt (path : Text) (limits : Limits) (n : Node) :
    ((sitesAt n).flatMap fun s => (s.alone path limits).warnings) = sizeNotes limits (literalsAt n) := by
  have hrules : KeyRule.all = KeyRule.flattening.map (·.1) := rfl
  have halone : ∀ r ∈ KeyRule.flattening,
      (Site.alone path limits ⟨r.1, n⟩).warnings = sizeNotes limits (r.2 n) := fun r hr =>
    (KeyRule.notes_gather hr n _).warnings
  rw [sitesAt, hrules, literalsAt]
  generalize KeyRule.flattening = rules at halone
  induction rules with
  | nil => rfl
  | cons r rules ih =>
    have hrest := ih fun q hq => halone q (List.mem_cons_of_mem r hq)
    rw [List.flatMap_cons, sizeNotes_append, ← hrest, List.map_cons, List.filter_cons]
    by_cases hr : r.1.applies n = true
    · rw [if_pos hr, if_pos hr, List.map_cons, List.flatMap_cons, halone r (by simp)]
    · rw [if_neg hr, if_neg hr, sizeNotes_nil, List.nil_append]

/-- The warnings of a tree are the notes of its literals. -/
theorem warnings_literals {path : Text} {limits : Limits} {root : Node} {x : Extracted}
    (h : FromSites path limits root x) : x.warnings = sizeNotes limits (literals root) := by
  rw [h.warnings, sites, List.flatMap_assoc, literals, sizeNotes_flatMap]
  simp only [warnings_sitesAt]

/-! ## Sources -/

section

variable (limits : Limits) {path source : Text} {parser : TypeScript.Parser}

theorem extract_tree {root : Node} (h : parser (allowsElements path) source = some root) :
    (extract limits path source parser).value = (gatherTree { file := path, limits } root).value.result := by
  simp only [extract, h, Logged.value_bind]
  split <;> rfl

theorem extract_scan (h : parser (allowsElements path) source = none) :
    (extract limits path source parser).value.usedFallback = true := by
  simp only [extract, h, Logged.value_bind]
  rfl

end

end MessageCatalog.Extraction
