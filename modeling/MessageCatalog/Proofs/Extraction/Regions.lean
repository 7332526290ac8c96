/-
  MessageCatalog.Proofs.Extraction.Regions — the object literals behind anchors.

  A region is a piece of the text searched, from an opening brace to a closing one, and no
  longer than the scan may look (`callRegions_within`, `exportRegions_within`). A literal
  without quotes adds nothing, in whichever pass it is found (`addLiteral_unquoted`,
  `addCall_unquoted`), and may be left out of the pass (`foldl_filter`).
-/

import MessageCatalog.Proofs.Extraction.Anchor
import MessageCatalog.Proofs.Extraction.ValidKeys
import MessageCatalog.Proofs.Literal.Located

namespace MessageCatalog.Extraction.LineScan

open Anchor
open Literal (Unquoted)

/-! ## Where they stand -/

/-- The region is a piece of the text, between braces. -/
structure Region.Within {α : Type} (limits : Limits) (t : Text) (r : Region α) : Prop where
  piece : ∃ before after, t = before ++ (r.literal ++ after) ∧ r.left = (r.literal ++ after).length ∧
    r.leftAfter = after.length
  braces : ∃ inside, r.literal = ('{' : Code) :: (inside ++ [('}' : Code)])
  short : r.literal.length ≤ limits.maxContentLength

/-- Skipping leaves an ending, in which the literal stands in front, up to the brace that
matches its first one. -/
theorem literalIn_region {skip : Text → Text} (hskip : ∀ t, skip t <:+ t) {window o c : Text}
    (h : literalIn skip window = .region o c) :
    ∃ inside after, o = ('{' : Code) :: (inside ++ ('}' : Code) :: after) ∧ c = ('}' : Code) :: after ∧
      o <:+ window ∧ Literal.IsInside inside := by
  have hwindow := hskip window
  unfold literalIn at h
  split at h
  · cases h
  · rename_i d s e
    rw [e] at hwindow
    split at h
    · rename_i hd
      split at h
      · rename_i close hclose
        obtain ⟨rfl, rfl⟩ := Outcome.region.inj h
        obtain rfl : d = '{' := eq_of_beq hd
        obtain ⟨inside, after, rfl, rfl, hinside⟩ := Literal.isInside_of_closes hclose
        exact ⟨inside, after, rfl, rfl, hwindow, hinside⟩
      · cases h
    · cases h

theorem upTo_braced (inside after : Text) :
    Text.upTo (('{' : Code) :: (inside ++ ('}' : Code) :: after)) after = ('{' : Code) :: (inside ++ [('}' : Code)]) := by
  have hcut : ('{' : Code) :: (inside ++ ('}' : Code) :: after) =
      (('{' : Code) :: (inside ++ [('}' : Code)])) ++ after := by simp
  rw [hcut, Literal.upTo_append]

variable {α : Type} {limits : Limits}

/-- The region that is made of a literal in the window behind an anchor. -/
theorem region_within {skip : Text → Text} (hskip : ∀ t, skip t <:+ t) {t rest o c : Text} (hrest : rest <:+ t)
    (h : literalIn skip (rest.take limits.maxContentLength) = .region o c) (anchor : α) :
    let beyond := rest.length - (rest.take limits.maxContentLength).length
    Region.Within limits t ⟨anchor, beyond + o.length, beyond + c.length - 1, Text.upTo o c.tail⟩ := by
  obtain ⟨inside, after, rfl, rfl, ⟨front, hfront⟩, -⟩ := literalIn_region hskip h
  obtain ⟨before, rfl⟩ := hrest
  have hliteral := upTo_braced inside after
  have hrest : rest = front ++ (('{' : Code) :: (inside ++ ('}' : Code) :: after)) ++
      rest.drop limits.maxContentLength := by
    rw [hfront, List.take_append_drop]
  have hbeyond : rest.length - (rest.take limits.maxContentLength).length =
      (rest.drop limits.maxContentLength).length := by
    rw [List.length_drop, List.length_take]
    omega
  have hlen : (rest.take limits.maxContentLength).length ≤ limits.maxContentLength := List.length_take_le _ _
  rw [← hfront] at hlen
  simp only [List.length_append, List.length_cons] at hlen
  refine ⟨⟨before ++ front, after ++ rest.drop limits.maxContentLength, ?_, ?_, ?_⟩, ⟨inside, hliteral⟩, ?_⟩
  · refine (congrArg (before ++ ·) hrest).trans ?_
    simp only [List.tail_cons, hliteral]
    simp
  · simp only [List.tail_cons, hliteral, hbeyond, List.length_cons, List.length_append, List.length_nil]
    omega
  · simp only [hbeyond, List.length_append, List.length_cons]
    omega
  · simp only [List.tail_cons, hliteral, List.length_cons, List.length_append, List.length_nil]
    omega

theorem forall_regions {skip : Text → Text} {accept : α → Bool} {P : Region α → Prop} {fs : List (Found α)}
    (h : ∀ f ∈ fs, ∀ {o c : Text}, literalIn skip (f.rest.take limits.maxContentLength) = .region o c →
      let beyond := f.rest.length - (f.rest.take limits.maxContentLength).length
      P ⟨f.value, beyond + o.length, beyond + c.length - 1, Text.upTo o c.tail⟩) {scanned : Nat} :
    ∀ r ∈ regions limits skip accept scanned fs, P r := by
  induction fs generalizing scanned with
  | nil => intro r hr; cases hr
  | cons f fs ih =>
    have hmore : ∀ scanned, ∀ r ∈ regions limits skip accept scanned fs, P r := fun _ =>
      ih fun g hg => h g (List.mem_cons_of_mem f hg)
    intro r hr
    rw [regions] at hr
    split at hr
    · exact hmore _ r hr
    · dsimp only at hr
      split at hr
      · exact hmore _ r hr
      · exact hmore _ r hr
      · rename_i o c hregion
        rcases List.mem_cons.1 hr with rfl | hr
        · exact h f List.mem_cons_self hregion
        · exact hmore _ r hr

theorem regions_within {skip : Text → Text} (hskip : ∀ t, skip t <:+ t) {accept : α → Bool} {t : Text} {scanned : Nat}
    {fs : List (Found α)} (hfs : ∀ f ∈ fs, f.rest <:+ t) :
    ∀ r ∈ regions limits skip accept scanned fs, r.Within limits t :=
  forall_regions fun f hf _ _ hregion => region_within hskip (hfs f hf) hregion f.value

theorem callRegions_within (limits : Limits) (t : Text) : ∀ r ∈ callRegions limits t, r.Within limits t :=
  regions_within Literal.skipTrivia_suffix fun _ hf => rest_findAll call_suffix hf

theorem exportRegions_within (limits : Limits) (t : Text) : ∀ r ∈ exportRegions limits t, r.Within limits t :=
  regions_within Literal.skipWrappers_suffix fun _ hf => rest_findAll exported_suffix hf

section

variable {t : Text} {r : Region α}

theorem Region.Within.literal_piece (h : r.Within limits t) : r.literal <:+: t := by
  obtain ⟨before, after, rfl, -⟩ := h.piece
  exact ⟨before, after, List.append_assoc _ _ _⟩

theorem Region.Within.opening (h : r.Within limits t) : ('{' : Code) ∈ t := by
  obtain ⟨before, after, rfl, -⟩ := h.piece
  obtain ⟨inside, hliteral⟩ := h.braces
  simp [hliteral]

theorem closing_mem {inside x y : Text} (h : ('{' : Code) :: (inside ++ [('}' : Code)]) = x ++ y) (hy : y ≠ []) :
    ('}' : Code) ∈ y := by
  have hlast := congrArg List.getLast? h
  rw [← List.cons_append, List.getLast?_concat, List.getLast?_append] at hlast
  cases he : y.getLast? with
  | none => exact absurd (List.getLast?_eq_none_iff.1 he) hy
  | some c =>
    rw [he, Option.some_or] at hlast
    obtain rfl := Option.some.inj hlast
    exact List.mem_of_getLast? he

/-- Around a quote a region ends before it, or starts behind it, or reaches past it. -/
theorem Region.Within.split {a b : Text} {q : Code} (hq : Literal.isQuote q = true)
    (h : r.Within limits (a ++ q :: b)) :
    r.Within limits b ∨ ('{' : Code) ∈ a ∧
      (r.literal.Sublist a ∨ ('}' : Code) ∈ b ∧ r.leftAfter < (q :: b).length ∧ (q :: b).length < r.left) := by
  obtain ⟨before, after, hpiece, hleft, hafter⟩ := h.piece
  obtain ⟨inside, hliteral⟩ := h.braces
  have hne : ∀ {c : Code}, Literal.isQuote c = false → q ≠ c := fun hc e => by
    rw [e, hc] at hq
    cases hq
  have hcut : ∀ {s u : Text}, q :: s = r.literal ++ u → False := fun e => by
    rw [hliteral] at e
    exact hne rfl (List.cons.inj e).1
  rcases List.append_eq_append_iff.1 hpiece with ⟨x, rfl, hx⟩ | ⟨x, rfl, hx⟩
  · -- the quote stands before the literal
    left
    cases x with
    | nil => exact (hcut hx).elim
    | cons c x => exact ⟨⟨x, after, (List.cons.inj hx).2, hleft, hafter⟩, h.braces, h.short⟩
  · right
    have hlength : r.left = x.length + (q :: b).length := by rw [hleft, hx, List.length_append]
    cases x with
    | nil => exact (hcut hx.symm).elim
    | cons d x =>
      have hd : d = '{' := by
        rw [hliteral] at hx
        exact (List.cons.inj hx).1.symm
      refine ⟨by simp [hd], ?_⟩
      rcases List.append_eq_append_iff.1 hx with ⟨y, hy, -⟩ | ⟨y, hy, hrest⟩
      · -- it stands behind the literal
        rw [hy]
        exact .inl ((List.sublist_append_left _ y).trans (List.sublist_append_right before _))
      · cases y with
        | nil =>
          rw [hy, List.append_nil]
          exact .inl (List.sublist_append_right before _)
        | cons e y =>
          -- it stands in the literal
          obtain ⟨rfl, hbehind⟩ : q = e ∧ b = y ++ after := List.cons.inj hrest
          refine .inr ⟨?_, ?_, ?_⟩
          · rw [hbehind]
            rcases List.mem_cons.1 (closing_mem (hliteral.symm.trans hy) (List.cons_ne_nil q y)) with e | hclose
            · exact (hne rfl e.symm).elim
            · exact List.mem_append_left after hclose
          · rw [hafter, hbehind, List.length_cons, List.length_append]
            omega
          · rw [hlength]
            exact Nat.lt_add_of_pos_left (Nat.succ_pos _)

end

/-! ## Literals without quotes -/

theorem addLiteral_unquoted (c : Collection) {literal : Text} (h : Unquoted literal)
    (hlen : literal.length ≤ c.limits.maxContentLength) (base : Text) : (c.addLiteral literal base).value = c := by
  have hrun := Literal.flatten_run base hlen
  rw [Literal.emissions_unquoted c.limits base h] at hrun
  rw [Collection.addLiteral, Logged.value_bind]
  simp only [hrun]
  rfl

theorem quoted_unquoted (most : Nat) {t : Text} (h : Unquoted t) : quoted most t = none := by
  cases hq : quoted most t with
  | none => rfl
  | some x =>
    obtain ⟨q, hquote, rfl⟩ := quoted_split hq
    rw [h q List.mem_cons_self] at hquote
    cases hquote

theorem findFirst_none {β : Type} {recognize : Option Code → Text → Option β} {t : Text}
    (h : ∀ before s, s <:+ t → recognize before s = none) (before : Option Code) :
    findFirst recognize before t = none := by
  induction t generalizing before with
  | nil => rfl
  | cons c t ih =>
    rw [findFirst, h before (c :: t) (List.suffix_refl _), ih fun b s hs => h b s (hs.trans (List.suffix_cons c t))]
    rfl

theorem findFirst_found {β : Type} {recognize : Option Code → Text → Option β} {before : Option Code} {t : Text}
    {x : β} (h : findFirst recognize before t = some x) : ∃ before s, s <:+ t ∧ recognize before s = some x := by
  induction t generalizing before with
  | nil => cases h
  | cons c t ih =>
    rw [findFirst, Option.orElse_eq_orElse, Option.orElse_eq_or, Option.or_eq_some_iff] at h
    rcases h with h | ⟨-, h⟩
    · exact ⟨before, c :: t, List.suffix_refl _, h⟩
    · obtain ⟨b, s, hs, hx⟩ := ih h
      exact ⟨b, s, hs.trans (List.suffix_cons c t), hx⟩

theorem findFirst_suffix {recognize : Option Code → Text → Option Text}
    (hsuffix : ∀ {before t r}, recognize before t = some r → r <:+ t) {before : Option Code} {t r : Text}
    (h : findFirst recognize before t = some r) : r <:+ t := by
  obtain ⟨b, s, hs, hr⟩ := findFirst_found h
  exact (hsuffix hr).trans hs

theorem setPlugin_none (c : Collection) : c.setPlugin none = c := by
  unfold Collection.setPlugin
  split
  · rename_i h
    cases h
  · rfl

theorem addDescriptors_unquoted (c : Collection) {literal : Text} (h : Unquoted literal)
    (hlen : literal.length ≤ c.limits.maxContentLength) : (addDescriptors c literal).value = c := by
  have hscratch : scratch c literal = { file := c.file, limits := c.limits } :=
    addLiteral_unquoted { file := c.file, limits := c.limits } h hlen descriptorRoot
  rw [addDescriptors_eq, hscratch]
  simp only [List.append_nil]
  rfl

theorem textProperty_unquoted (name : Text) (before : Option Code) {t : Text} (h : Unquoted t) :
    textProperty name before t = none := by
  cases hp : property name before t with
  | none => rw [textProperty, hp, Option.bind_none]
  | some r => rw [textProperty, hp, Option.bind_some, quoted_unquoted _ (h.suffix (property_suffix hp))]

/-- What a property is given is a piece of the literal. -/
theorem propertyLiteral_piece {name literal inner : Text} (h : propertyLiteral name literal = some inner) :
    inner <:+: literal := by
  obtain ⟨r, hr, h⟩ := Option.bind_eq_some_iff.1 h
  obtain ⟨b, hb, rfl⟩ := Option.map_eq_some_iff.1 h
  have hbehind : r <:+ literal.dropLast := findFirst_suffix property_suffix hr
  exact (List.take_prefix _ _).isInfix.trans ((Literal.objectLiteral_suffix hb).isInfix.trans
    (hbehind.isInfix.trans (List.dropLast_prefix literal).isInfix))

theorem addCall_unquoted (c : Collection) {r : Region CallKind} (h : Unquoted r.literal)
    (hlen : r.literal.length ≤ c.limits.maxContentLength) : (addCall c r).value = c := by
  have hid : findFirst (fun b t => textProperty "id" b t) none r.literal.dropLast = none :=
    findFirst_none (fun b s hs =>
      textProperty_unquoted "id" b ((h.sublist (List.dropLast_sublist _)).suffix hs)) none
  have hplugin : (if r.anchor = .definition then
      c.setPlugin ((findFirst (fun b t => textProperty "id" b t) none r.literal.dropLast).map (·.1)) else c) = c := by
    rw [hid]
    split
    · exact setPlugin_none c
    · rfl
  simp only [addCall, hplugin]
  split
  · exact addDescriptors_unquoted c h hlen
  · split
    · rename_i inner hinner
      have hsub := (propertyLiteral_piece hinner).sublist
      exact addLiteral_unquoted c (h.sublist hsub) (Nat.le_trans hsub.length_le hlen) []
    · rfl

/-! ## Passes -/

theorem limits_addLiteral (c : Collection) (literal base : Text) :
    (c.addLiteral literal base).value.limits = c.limits := by
  rcases c.addLiteral_cases literal base with ⟨f, -, hc⟩ | ⟨ws, hc⟩
  · rw [hc]
  · rw [hc]

theorem limits_addCall (c : Collection) (r : Region CallKind) : (addCall c r).value.limits = c.limits := by
  have hplugin : ∀ id, (if r.anchor = .definition then c.setPlugin id else c).limits = c.limits := by
    intro id
    split
    · unfold Collection.setPlugin
      split <;> rfl
    · rfl
  simp only [addCall]
  split
  · rw [addDescriptors_eq]
    exact hplugin _
  · split
    · rw [limits_addLiteral]
      exact hplugin _
    · exact hplugin _

section

variable {β : Type} {step : Collection → β → Collection}

theorem foldl_same {c : Collection} {bs : List β} (h : ∀ b ∈ bs, step c b = c) : bs.foldl step c = c := by
  induction bs with
  | nil => rfl
  | cons b bs ih =>
    rw [List.foldl_cons, h b List.mem_cons_self]
    exact ih fun b hb => h b (List.mem_cons_of_mem _ hb)

/-- What changes nothing under these limits can be left out. -/
theorem foldl_filter (hlimits : ∀ c b, (step c b).limits = c.limits) {p : β → Bool} {bs : List β}
    (hskip : ∀ c : Collection, c.limits = limits → ∀ b ∈ bs, p b = false → step c b = c) {c : Collection}
    (hc : c.limits = limits) :
    bs.foldl step c = (bs.filter p).foldl step c ∧ (bs.foldl step c).limits = limits := by
  induction bs generalizing c with
  | nil => exact ⟨rfl, hc⟩
  | cons b bs ih =>
    have hmore : ∀ c : Collection, c.limits = limits → ∀ b ∈ bs, p b = false → step c b = c :=
      fun c hc b hb => hskip c hc b (List.mem_cons_of_mem _ hb)
    by_cases hp : p b = true
    · rw [List.filter_cons_of_pos hp, List.foldl_cons, List.foldl_cons]
      exact ih hmore ((hlimits c b).trans hc)
    · rw [List.filter_cons_of_neg hp, List.foldl_cons, hskip c hc b List.mem_cons_self (Bool.eq_false_iff.2 hp)]
      exact ih hmore hc

end

end MessageCatalog.Extraction.LineScan
