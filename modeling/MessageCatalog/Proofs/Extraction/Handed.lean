/-
  MessageCatalog.Proofs.Extraction.Handed — what a scan of lines hands to the flattener.

  A pass moves one mark through the text. An anchor in front of the mark is passed over, and
  every exit of a step that moves the mark leaves it behind the anchor, so the mark never goes
  back (`regions_ordered`): regions follow each other. A region is cut out of a window as long
  as the flattener takes, so neither the region nor what is cut out of it is too long, however
  the text around them goes on.

  Proved: regions of one pass are disjoint and in order, each from a brace to the matching one,
  and what they hand on is flattened, so that a scan adds no warning and logs nothing but notes
  on depth (`scan_handed`).
-/

import MessageCatalog.Proofs.Extraction.Literals
import MessageCatalog.Proofs.Extraction.Regions

namespace MessageCatalog.Extraction.LineScan

open Anchor

/-! ## Positions -/

def Region.opening {α : Type} (t : Text) (r : Region α) : Nat := t.length - r.left

def Region.closing {α : Type} (t : Text) (r : Region α) : Nat := t.length - r.leftAfter - 1

/-- A literal from a brace to the one that matches it. -/
def IsBraced (literal : Text) : Prop :=
  ∃ inside, literal = ('{' : Code) :: (inside ++ [('}' : Code)]) ∧ Literal.IsInside inside

/-- A region is what stands in the text from a brace to the one that matches it. -/
structure Region.Placed {α : Type} (t : Text) (r : Region α) : Prop where
  order : r.opening t < r.closing t
  opens : t[r.opening t]? = some ('{' : Code)
  closes : t[r.closing t]? = some ('}' : Code)
  matching : Literal.closingBraceAt t (r.opening t) t.length = some (r.closing t)
  slice : r.literal = t.window (r.opening t) (r.closing t + 1)

section

variable {α : Type} {limits : Limits} {t : Text} {r : Region α}

/-- Of two regions the second one starts behind the first. -/
theorem closing_lt_opening {a b : Region α} (ha : a.Within limits t) (hb : b.Within limits t)
    (h : b.left ≤ a.leftAfter) : a.closing t < b.opening t := by
  obtain ⟨before, after, ht, hleft, hafter⟩ := ha.piece
  obtain ⟨before', after', ht', hleft', -⟩ := hb.piece
  obtain ⟨inside, hliteral⟩ := ha.braces
  obtain ⟨inside', hliteral'⟩ := hb.braces
  have hlength := congrArg List.length ht
  have hlength' := congrArg List.length ht'
  simp only [hliteral, hliteral', List.length_append, List.length_cons, List.length_nil] at *
  rw [Region.closing, Region.opening]
  omega

theorem placed (hr : r.Within limits t) (hbraced : IsBraced r.literal) : r.Placed t := by
  obtain ⟨before, after, ht, hleft, hafter⟩ := hr.piece
  obtain ⟨inside, hliteral, hinside⟩ := hbraced
  have hpiece : t = before ++ ('{' : Code) :: (inside ++ ('}' : Code) :: after) := by
    rw [ht, hliteral]
    simp
  have hopening : r.opening t = before.length := by
    rw [Region.opening, hleft, ht, List.length_append, Nat.add_sub_cancel]
  have hclosing : r.closing t = before.length + 1 + inside.length := by
    rw [Region.closing, hafter, hpiece]
    simp
    omega
  have hmatching : Literal.closingBrace 0 (('{' : Code) :: (inside ++ ('}' : Code) :: after)) =
      some (('}' : Code) :: after) := by
    rw [Literal.closingBrace_open, Int.zero_add, hinside.closes]
  refine ⟨?_, ?_, ?_, ?_, ?_⟩
  · omega
  · rw [hopening, hpiece]
    simp
  · rw [hclosing, hpiece, Nat.add_assoc, List.getElem?_append_right (Nat.le_add_right _ _)]
    simp [Nat.add_comm 1]
  · rw [hopening, hclosing, hpiece, Literal.closingBraceAt, List.length_append, Text.window_append, List.take_length,
      hmatching]
    simp [Literal.positionOf]
    omega
  · rw [hopening, hclosing, hpiece, Literal.window_braced, hliteral]

end

/-! ## The mark -/

theorem found_le {α : Type} {recognize : Option Code → Text → Option (α × Text)}
    (hsuffix : ∀ {before t a r}, recognize before t = some (a, r) → r <:+ t) {before : Option Code} {t : Text}
    {f : Found α} (hf : f ∈ findAll recognize before t) : f.rest.length ≤ f.start.length := by
  obtain ⟨-, b, hr⟩ := mem_findAll hsuffix hf
  exact (hsuffix hr).length_le

section

variable {α : Type} {limits : Limits}

theorem regions_braced {skip : Text → Text} (hskip : ∀ t, skip t <:+ t) {accept : α → Bool} {scanned : Nat}
    {fs : List (Found α)} : ∀ r ∈ regions limits skip accept scanned fs, IsBraced r.literal :=
  forall_regions fun _ _ _ _ hregion => by
    obtain ⟨inside, after, rfl, rfl, -, hinside⟩ := literalIn_region hskip hregion
    exact ⟨inside, upTo_braced inside after, hinside⟩

/-- Regions one behind the other, none of which starts in front of the mark. -/
structure Ordered (scanned : Nat) (rs : List (Region α)) : Prop where
  behind : ∀ r ∈ rs, r.left ≤ scanned
  following : rs.Pairwise fun a b => b.left ≤ a.leftAfter

theorem Ordered.mono {mark scanned : Nat} {rs : List (Region α)} (h : Ordered mark rs) (hle : mark ≤ scanned) :
    Ordered scanned rs :=
  { h with behind := fun r hr => Nat.le_trans (h.behind r hr) hle }

theorem Ordered.cons {scanned : Nat} {r : Region α} {rs : List (Region α)} (h : Ordered r.leftAfter rs)
    (hafter : r.leftAfter ≤ r.left) (hleft : r.left ≤ scanned) : Ordered scanned (r :: rs) where
  behind := List.forall_mem_cons.2 ⟨hleft, (h.mono (Nat.le_trans hafter hleft)).behind⟩
  following := List.pairwise_cons.2 ⟨h.behind, h.following⟩

/-- Whatever ends a step leaves the mark where it was or takes it further. -/
theorem regions_ordered {skip : Text → Text} (hskip : ∀ t, skip t <:+ t) {accept : α → Bool} {scanned : Nat}
    {fs : List (Found α)} (hfs : ∀ f ∈ fs, f.rest.length ≤ f.start.length) :
    Ordered scanned (regions limits skip accept scanned fs) := by
  induction fs generalizing scanned with
  | nil => exact ⟨fun _ hr => absurd hr List.not_mem_nil, List.Pairwise.nil⟩
  | cons f fs ih =>
    have hmore : ∀ {scanned}, Ordered scanned (regions limits skip accept scanned fs) :=
      ih fun g hg => hfs g (List.mem_cons_of_mem f hg)
    have hrest := hfs f List.mem_cons_self
    rw [regions]
    split
    · exact hmore
    · rename_i htaken
      -- the anchor is behind the mark, and the window behind the anchor
      have hmark : f.start.length ≤ scanned := by
        simp only [Bool.or_eq_true, decide_eq_true_eq, not_or, Nat.not_lt] at htaken
        exact htaken.1
      dsimp only
      split
      · exact hmore
      · exact hmore.mono (by omega)
      · rename_i o c hregion
        obtain ⟨inside, after, rfl, rfl, hwindow, -⟩ := literalIn_region hskip hregion
        have hlength := hwindow.length_le
        rw [List.length_cons, List.length_append, List.length_cons] at hlength
        have htake := (List.take_sublist limits.maxContentLength f.rest).length_le
        refine hmore.cons ?_ ?_
        · simp
          omega
        · simp only [List.length_cons, List.length_append]
          omega

theorem callRegions_braced (limits : Limits) (t : Text) : ∀ r ∈ callRegions limits t, IsBraced r.literal :=
  regions_braced Literal.skipTrivia_suffix

theorem exportRegions_braced (limits : Limits) (t : Text) : ∀ r ∈ exportRegions limits t, IsBraced r.literal :=
  regions_braced Literal.skipWrappers_suffix

/-- Regions that follow each other and stand in a text are disjoint and in order. -/
theorem Ordered.disjoint {t : Text} {scanned : Nat} {rs : List (Region α)} (h : Ordered scanned rs)
    (hwithin : ∀ r ∈ rs, r.Within limits t) : rs.Pairwise fun a b => a.closing t < b.opening t :=
  h.following.imp_of_mem fun ha hb => closing_lt_opening (hwithin _ ha) (hwithin _ hb)

theorem callRegions_ordered (limits : Limits) (t : Text) :
    (callRegions limits t).Pairwise fun a b => a.closing t < b.opening t :=
  Ordered.disjoint (regions_ordered Literal.skipTrivia_suffix fun _ hf => found_le call_suffix hf)
    (callRegions_within limits t)

theorem exportRegions_ordered (limits : Limits) (t : Text) :
    (exportRegions limits t).Pairwise fun a b => a.closing t < b.opening t :=
  Ordered.disjoint (regions_ordered Literal.skipWrappers_suffix fun _ hf => found_le exported_suffix hf)
    (exportRegions_within limits t)

end

/-! ## Literals -/

/-- The literals of a call that are flattened: its argument, or the object that a property of
the argument is given. -/
def handed (r : Region CallKind) : List Text :=
  if r.anchor = .enumerated then [r.literal] else (propertyLiteral r.anchor.property r.literal).toList

theorem propertyLiteral_braced {name literal inner : Text} (h : propertyLiteral name literal = some inner) :
    IsBraced inner := by
  obtain ⟨r, -, h⟩ := Option.bind_eq_some_iff.1 h
  obtain ⟨b, hb, rfl⟩ := Option.map_eq_some_iff.1 h
  obtain ⟨before, inside, after, rfl, rfl, hinside⟩ := Literal.objectLiteral_split hb
  exact ⟨inside, upTo_braced inside after, hinside⟩

theorem handed_braced {r : Region CallKind} (hr : IsBraced r.literal) :
    ∀ literal ∈ handed r, literal <:+: r.literal ∧ IsBraced literal := by
  intro literal h
  rw [handed] at h
  split at h
  · obtain rfl := List.mem_singleton.1 h
    exact ⟨List.infix_rfl, hr⟩
  · have hinner := Option.mem_toList.1 h
    exact ⟨propertyLiteral_piece hinner, propertyLiteral_braced hinner⟩

/-- A step that hands these literals to the flattener: each that is too long is noted as a
warning, and if there is none, nothing is logged but notes on depth. -/
structure Hands (literals : List Text) (c : Collection) (x : Logged Collection) : Prop where
  notes : Notes literals c x.value
  journal : (∀ t ∈ literals, t.length ≤ c.limits.maxContentLength) →
    ∀ r ∈ x.journal, ∃ base, r = Literal.depthNote c.limits base

namespace Hands

variable {c : Collection}

theorem pure {d : Collection} (h : Notes [] c d) : Hands [] c (Pure.pure d) :=
  ⟨h, fun _ _ hr => absurd hr List.not_mem_nil⟩

theorem bind {ts us : List Text} {x : Logged Collection} {f : Collection → Logged Collection} (hx : Hands ts c x)
    (hf : Hands us x.value (f x.value)) : Hands (ts ++ us) c (x >>= f) := by
  refine ⟨hx.notes.trans hf.notes, fun hshort r hr => ?_⟩
  rcases List.mem_append.1 hr with hr | hr
  · exact hx.journal (fun t ht => hshort t (List.mem_append_left us ht)) r hr
  · rw [← hx.notes.limits]
    refine hf.journal (fun t ht => ?_) r hr
    rw [hx.notes.limits]
    exact hshort t (List.mem_append_right ts ht)

theorem after {ts : List Text} {d : Collection} {x : Logged Collection} (hd : Notes [] c d) (hx : Hands ts d x) :
    Hands ts c x :=
  (pure hd).bind (f := fun _ => x) hx

theorem foldlM {α : Type} {f : Collection → α → Logged Collection} {literals : α → List Text}
    (hf : ∀ c x, Hands (literals x) c (f c x)) (c : Collection) (xs : List α) :
    Hands (xs.flatMap literals) c (xs.foldlM f c) := by
  induction xs generalizing c with
  | nil => exact pure (.refl c)
  | cons x xs ih =>
    rw [List.foldlM_cons, List.flatMap_cons]
    exact (hf c x).bind (ih _)

theorem addLiteral (c : Collection) (literal base : Text) : Hands [literal] c (c.addLiteral literal base) := by
  refine ⟨.addLiteral c literal base, fun hshort r hr => ⟨base, ?_⟩⟩
  have hlen : literal.length ≤ c.limits.maxContentLength := hshort literal List.mem_cons_self
  have hjournal : (c.addLiteral literal base).journal =
      if (Literal.emissions c.limits base literal).any Literal.Emission.isTooDeep then
        [Literal.depthNote c.limits base] else [] := by
    rw [Collection.addLiteral, Literal.flatten, if_neg (Nat.not_lt.2 hlen)]
    by_cases hdeep : (Literal.emissions c.limits base literal).any Literal.Emission.isTooDeep = true
    · simp only [hdeep, if_true]
      rfl
    · simp only [hdeep]
      rfl
  rw [hjournal] at hr
  split at hr
  · exact List.mem_singleton.1 hr
  · exact absurd hr List.not_mem_nil

theorem addDescriptors (c : Collection) (literal : Text) : Hands [literal] c (addDescriptors c literal) := by
  have hscratch := addLiteral { file := c.file, limits := c.limits } literal descriptorRoot
  refine ⟨⟨?_, ?_⟩, fun hshort r hr => hscratch.journal hshort r ?_⟩
  · rw [addDescriptors_eq]
  · rw [addDescriptors_eq]
    exact congrArg (c.warnings ++ ·) hscratch.notes.warnings
  · have hjournal : (LineScan.addDescriptors c literal).journal =
        (Collection.addLiteral { file := c.file, limits := c.limits } literal descriptorRoot).journal ++ [] := rfl
    rwa [hjournal, List.append_nil] at hr

end Hands

theorem hands_addCall (c : Collection) (r : Region CallKind) : Hands (handed r) c (addCall c r) := by
  have hplugin : Notes [] c (if r.anchor = .definition then
      c.setPlugin ((findFirst (fun b t => textProperty "id" b t) none r.literal.dropLast).map (·.1)) else c) := by
    split
    · exact .setPlugin c _
    · exact .refl c
  refine .after hplugin ?_
  simp only [addCall, handed]
  by_cases hkind : r.anchor = .enumerated
  · simp only [if_pos hkind]
    exact .addDescriptors _ _
  · simp only [if_neg hkind]
    cases propertyLiteral r.anchor.property r.literal with
    | none => exact .pure (.refl _)
    | some literal => exact .addLiteral _ _ []

theorem notes_scanLine (c : Collection) (line : Text) : Notes [] c (scanLine c line) :=
  (Notes.foldl_none (fun c _ => .add c _ _) c _).trans (.foldl_none (fun c _ => .add c _ _) _ _)

/-- What a scan hands to the flattener, pass by pass. -/
theorem hands_scan (c : Collection) (t : Text) :
    Hands ((callRegions c.limits t).flatMap handed ++ (exportRegions c.limits t).map (·.literal)) c (scan c t) := by
  have hcalls := Hands.foldlM hands_addCall c (callRegions c.limits t)
  have hexports (d : Collection) (hd : d.limits = c.limits) :
      Hands ((exportRegions c.limits t).map (·.literal)) d (scanExports d t) := by
    rw [scanExports, hd, List.map_eq_flatMap]
    exact .foldlM (fun c r => .addLiteral c r.literal []) d _
  have hlines (d : Collection) : Hands [] d (pure (scanLines d t)) := .pure (.foldl_none notes_scanLine d _)
  have hbehind (d : Collection) (hd : d.limits = c.limits) :
      Hands ((exportRegions c.limits t).map (·.literal)) d (scanExports d t >>= fun e => pure (scanLines e t)) := by
    have h := (hexports d hd).bind (f := fun e => pure (scanLines e t)) (hlines _)
    rwa [List.append_nil] at h
  exact hcalls.bind (f := fun d => scanExports d t >>= fun e => pure (scanLines e t)) (hbehind _ hcalls.notes.limits)

/-! ## Scans -/

/-- The regions of a pass are disjoint and in order, and each stands from a brace to the matching
one. Every literal that is handed on is one of them or lies in one, ends with the brace that
matches its first and is no longer than the flattener takes; so a scan leaves the warnings as
they are and logs nothing but notes on depth. -/
theorem scan_handed (c : Collection) (t : Text) :
    ((callRegions c.limits t).Pairwise (fun a b => a.closing t < b.opening t) ∧
        ∀ r ∈ callRegions c.limits t, r.Placed t ∧
          ∀ literal ∈ handed r, literal <:+: r.literal ∧ IsBraced literal ∧
            literal.length ≤ c.limits.maxContentLength) ∧
      ((exportRegions c.limits t).Pairwise (fun a b => a.closing t < b.opening t) ∧
        ∀ r ∈ exportRegions c.limits t, r.Placed t ∧ IsBraced r.literal ∧
          r.literal.length ≤ c.limits.maxContentLength) ∧
      (scan c t).value.warnings = c.warnings ∧
      ∀ r ∈ (scan c t).journal, ∃ base, r = Literal.depthNote c.limits base := by
  have hcall : ∀ r ∈ callRegions c.limits t, ∀ literal ∈ handed r, literal <:+: r.literal ∧ IsBraced literal ∧
      literal.length ≤ c.limits.maxContentLength := by
    intro r hr literal h
    obtain ⟨hpiece, hbraced⟩ := handed_braced (callRegions_braced c.limits t r hr) literal h
    exact ⟨hpiece, hbraced, Nat.le_trans hpiece.length_le (callRegions_within c.limits t r hr).short⟩
  have hshort : ∀ literal ∈ (callRegions c.limits t).flatMap handed ++ (exportRegions c.limits t).map (·.literal),
      literal.length ≤ c.limits.maxContentLength := by
    intro literal h
    rcases List.mem_append.1 h with h | h
    · obtain ⟨r, hr, h⟩ := List.mem_flatMap.1 h
      exact (hcall r hr literal h).2.2
    · obtain ⟨r, hr, rfl⟩ := List.mem_map.1 h
      exact (exportRegions_within c.limits t r hr).short
  have hscan := hands_scan c t
  refine ⟨⟨callRegions_ordered c.limits t, fun r hr => ⟨?_, hcall r hr⟩⟩,
    ⟨exportRegions_ordered c.limits t, fun r hr => ⟨?_, ?_, ?_⟩⟩, ?_, hscan.journal hshort⟩
  · exact placed (callRegions_within c.limits t r hr) (callRegions_braced c.limits t r hr)
  · exact placed (exportRegions_within c.limits t r hr) (exportRegions_braced c.limits t r hr)
  · exact exportRegions_braced c.limits t r hr
  · exact (exportRegions_within c.limits t r hr).short
  · rw [hscan.notes.warnings, sizeNotes_eq_nil.2 hshort, List.append_nil]

end MessageCatalog.Extraction.LineScan
