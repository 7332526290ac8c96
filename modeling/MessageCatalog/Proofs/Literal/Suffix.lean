/-
  MessageCatalog.Proofs.Literal.Suffix — what the cursors leave, and texts without quotes.

  A cursor gives back an ending of the text it was given, never anything else. So a text
  without quotes is scanned to its end without a string, and whatever object literal is
  found in it emits no text (`emissions_unquoted`).
-/

import MessageCatalog.Proofs.Literal.Flatten

namespace MessageCatalog.Literal

/-! ## Endings -/

theorem suffix_of_cons {c : Code} {r t : Text} (h : c :: r <:+ t) : r <:+ t :=
  (List.suffix_cons c r).trans h

theorem afterLine_suffix (t : Text) : afterLine t <:+ t := by
  induction t with
  | nil => exact List.suffix_refl []
  | cons c r ih =>
    rw [afterLine]
    split
    · exact List.suffix_cons c r
    · exact ih.trans (List.suffix_cons c r)

theorem afterBlock_suffix (t : Text) : afterBlock t <:+ t := by
  fun_induction afterBlock t with
  | case1 => exact List.suffix_refl []
  | case2 c => exact List.nil_suffix
  | case3 c d s => exact (List.suffix_cons d s).trans (List.suffix_cons c _)
  | case4 c d s _ ih => exact ih.trans (List.suffix_cons c _)

theorem skipTrivia_suffix (t : Text) : skipTrivia t <:+ t := by
  fun_induction skipTrivia t with
  | case1 => exact List.suffix_refl []
  | case2 c r _ ih => exact ih.trans (List.suffix_cons c r)
  | case3 c r _ _ _ ih =>
    exact ih.trans ((afterLine_suffix r.tail).trans ((List.tail_suffix r).trans (List.suffix_cons c r)))
  | case4 c r _ _ _ ih =>
    exact ih.trans ((afterBlock_suffix r.tail).trans ((List.tail_suffix r).trans (List.suffix_cons c r)))
  | case5 => exact List.suffix_refl _

theorem skipString_suffix (q : Code) (t : Text) : skipString q t <:+ t := by
  fun_induction skipString q t with
  | case1 => exact List.suffix_refl []
  | case2 => exact List.nil_suffix
  | case3 c _ d s ih => exact ih.trans ((List.suffix_cons d s).trans (List.suffix_cons c _))
  | case4 c r => exact List.suffix_cons c r
  | case5 => exact List.suffix_refl _
  | case6 c r _ _ _ ih => exact ih.trans (List.suffix_cons c r)

theorem closingBrace_suffix {depth : Int} {t s : Text} (h : closingBrace depth t = some s) :
    s <:+ t ∧ ∃ r, s = ('}' : Code) :: r := by
  fun_induction closingBrace depth t with
  | case1 => cases h
  | case2 depth c r _ ih =>
    obtain ⟨hs, hr⟩ := ih h
    exact ⟨hs.trans ((skipString_suffix c r).trans (List.suffix_cons c r)), hr⟩
  | case3 depth c r _ _ ih =>
    obtain ⟨hs, hr⟩ := ih h
    exact ⟨hs.trans (skipTrivia_suffix (c :: r)), hr⟩
  | case5 c r _ _ _ hc =>
    obtain rfl := Option.some.inj h
    exact ⟨List.suffix_refl _, r, by rw [beq_iff_eq.1 hc]⟩
  | case4 depth c r _ _ _ ih | case6 depth c r _ _ _ _ _ ih | case7 depth c r _ _ _ _ ih =>
    obtain ⟨hs, hr⟩ := ih h
    exact ⟨hs.trans (List.suffix_cons c r), hr⟩

theorem afterAngles_suffix (depth : Nat) (t : Text) : afterAngles depth t <:+ t := by
  fun_induction afterAngles depth t with
  | case1 => exact List.suffix_refl []
  | case3 c r => exact List.suffix_cons c r
  | case2 _ c r _ ih | case4 _ c r _ _ _ ih | case5 _ c r _ _ ih => exact ih.trans (List.suffix_cons c r)

theorem skipWrappers_suffix (t : Text) : skipWrappers t <:+ t := by
  have hgo : ∀ t, skipWrappers.go t <:+ t := by
    intro t
    fun_induction skipWrappers.go t with
    | case1 => exact List.suffix_refl []
    | case2 c r _ ih => exact ih.trans ((skipTrivia_suffix r).trans (List.suffix_cons c r))
    | case3 c r _ _ ih =>
      exact ih.trans ((skipTrivia_suffix _).trans ((afterAngles_suffix 1 r).trans (List.suffix_cons c r)))
    | case4 => exact List.suffix_refl _
  exact (hgo _).trans (skipTrivia_suffix t)

theorem readBody_suffix {q : Code} {giveUp : Reading} {body t u : Text} {budget : Nat} {acc : Text}
    (hg : giveUp.rest <:+ u) (hb : body <:+ u) (ht : t <:+ u) : (readBody q giveUp body budget acc t).rest <:+ u := by
  fun_induction readBody q giveUp body budget acc t with
  | case1 | case2 => exact hg
  | case3 => exact suffix_of_cons ht
  | case4 acc c r budget _ _ d n _ ih => exact ih ((List.drop_suffix n r).trans (suffix_of_cons ht))
  | case5 => exact ht
  | case6 => exact (skipString_suffix q body).trans hb
  | case7 acc c r budget _ _ _ _ ih => exact ih (suffix_of_cons ht)

theorem readString_suffix (maxLength : Option Nat) (t : Text) : (readString maxLength t).rest <:+ t := by
  cases t with
  | nil => exact List.nil_suffix
  | cons q body =>
    simp only [readString]
    split
    · exact List.suffix_refl _
    · split
      · exact readBody_suffix List.nil_suffix (List.suffix_cons q body) (List.suffix_cons q body)
      · refine readBody_suffix ?_ (List.suffix_cons q body) (List.suffix_cons q body)
        dsimp only
        split
        · exact (skipString_suffix q body).trans (List.suffix_cons q body)
        · exact List.nil_suffix

/-- What is added to a string stands behind it. -/
theorem added_suffix {rest r s : Text} {c : Code} (h : skipTrivia rest = c :: r) (h' : skipTrivia r = s) :
    s <:+ rest := by
  have hrest := skipTrivia_suffix rest
  have hr := skipTrivia_suffix r
  rw [h] at hrest
  rw [h'] at hr
  exact hr.trans (suffix_of_cons hrest)

theorem joinStrings_suffix (limits : Limits) (value rest : Text) : (joinStrings limits value rest).rest <:+ rest := by
  fun_induction joinStrings limits value rest with
  | case1 | case2 | case6 | case7 => exact List.suffix_refl _
  | case3 value rest c r h _ q body h' hq part next h'' _ | case5 value rest c r h _ q body h' hq next h'' =>
    have hnext := readString_suffix (some limits.maxValueLength) (q :: body)
    rw [h''] at hnext
    exact hnext.trans (added_suffix h h')
  | case4 value rest c r h _ q body h' hq part next h'' _ ih =>
    have hnext := readString_suffix (some limits.maxValueLength) (q :: body)
    rw [h''] at hnext
    exact ih.trans (hnext.trans (added_suffix h h'))

theorem readValue_suffix (limits : Limits) (t : Text) : (readValue limits t).rest <:+ t := by
  have h := readString_suffix (some limits.maxValueLength) t
  unfold readValue
  split
  · rename_i e
    rwa [e] at h
  · rename_i value rest e
    rw [e] at h
    exact (joinStrings_suffix limits value rest).trans h

theorem skipValue_suffix (closers : List Code) (budget : Nat) (t : Text) : skipValue closers budget t <:+ t := by
  fun_induction skipValue closers budget t with
  | case1 | case2 | case4 => exact List.suffix_refl _
  | case3 _ c r _ _ ih => exact ih.trans ((skipString_suffix c r).trans (List.suffix_cons c r))
  | case5 _ c r _ _ _ _ s ih => exact ih.trans (skipTrivia_suffix (c :: r))
  | case8 => exact List.suffix_cons _ _
  | case6 _ c r _ _ _ _ _ ih | case7 _ c r _ _ _ _ _ ih | case9 _ c r _ _ _ _ _ _ ih =>
    exact ih.trans (List.suffix_cons c r)

theorem nameEnd_suffix (q : Code) (budget : Nat) (t : Text) : nameEnd q budget t <:+ t := by
  fun_induction nameEnd q budget t with
  | case1 | case2 | case3 => exact List.suffix_refl _
  | case4 c r _ _ _ ih => exact ih.trans ((List.tail_suffix r).trans (List.suffix_cons c r))
  | case5 c r _ _ _ ih => exact ih.trans (List.suffix_cons c r)

theorem quotedName_suffix (limits : Limits) (q : Code) (body : Text) : (quotedName limits q body).rest <:+ body := by
  have hname := nameEnd_suffix q limits.maxKeyLength body
  unfold quotedName
  split
  · rename_i h
    rw [h] at hname
    split
    · exact suffix_of_cons hname
    · exact skipString_suffix q body
  · exact skipString_suffix q body

theorem identifierName_suffix (limits : Limits) (c : Code) (r : Text) : (identifierName limits c r).rest <:+ r :=
  List.dropWhile_suffix _

theorem readName_suffix (limits : Limits) (c : Code) (r : Text) : (readName limits c r).rest <:+ r := by
  rw [readName]
  split
  · exact quotedName_suffix limits c r
  · exact identifierName_suffix limits c r

/-- What is left at a front: behind what is passed over, or from the value on. -/
def Front.left : Front → Text
  | .nothing => []
  | .noise rest => rest
  | .property _ c r => c :: r

theorem front_suffix (limits : Limits) (t : Text) : (front limits t).left <:+ t := by
  have ht := skipTrivia_suffix t
  unfold front
  split
  · exact List.nil_suffix
  · rename_i c r e
    rw [e] at ht
    have hname := (readName_suffix limits c r).trans (suffix_of_cons ht)
    split
    · dsimp only
      split
      · exact hname
      · have hcolon := (skipTrivia_suffix (readName limits c r).rest).trans hname
        split
        · exact hname
        · rename_i d s e₂
          rw [e₂] at hcolon
          split
          · have hvalue := (skipTrivia_suffix s).trans (suffix_of_cons hcolon)
            split
            · exact List.nil_suffix
            · rename_i e₃
              rwa [e₃] at hvalue
          · exact hname
    · exact suffix_of_cons ht

/-! ## Texts without quotes -/

def Unquoted (t : Text) : Prop := ∀ c ∈ t, isQuote c = false

theorem Unquoted.suffix {s t : Text} (h : Unquoted t) (hs : s <:+ t) : Unquoted s := fun c hc => h c (hs.subset hc)

theorem Unquoted.sublist {s t : Text} (h : Unquoted t) (hs : s.Sublist t) : Unquoted s := fun c hc => h c (hs.subset hc)

/-- There is no string to emit where there is no quote. -/
theorem scan_unquoted (limits : Limits) (base : Text) (depth : Nat) {t : Text} (h : Unquoted t) :
    (scan limits base depth t).filterMap Emission.entry? = [] := by
  fun_induction scan limits base depth t with
  | case1 => rfl
  | case2 base depth t rest hf ih =>
    have hrest := front_suffix limits t
    rw [hf] at hrest
    exact ih (h.suffix hrest)
  | case3 => rfl
  | case4 base depth t name c r hf key _ close hclose ih₂ ih₁ =>
    have hvalue := front_suffix limits t
    rw [hf] at hvalue
    have hr := h.suffix (suffix_of_cons hvalue)
    have hc := hr.suffix (closingBrace_suffix hclose).1
    rw [List.filterMap_append, ih₁ (hc.suffix (List.tail_suffix close)), List.append_nil]
    split
    · rfl
    · exact ih₂ (hr.sublist (List.take_sublist _ r))
  | case5 base depth t name c r hf _ _ hq _ _ =>
    have hvalue := front_suffix limits t
    rw [hf] at hvalue
    rw [h c (hvalue.subset List.mem_cons_self)] at hq
    cases hq
  | case6 base depth t name c r hf _ _ ih =>
    have hvalue := front_suffix limits t
    rw [hf] at hvalue
    exact ih (h.suffix ((skipValue_suffix _ _ _).trans hvalue))

theorem objectLiteral_suffix {t : Text} {b : Braced} (h : objectLiteral t = some b) : b.fromOpen <:+ t := by
  have ht := skipWrappers_suffix t
  unfold objectLiteral at h
  split at h
  · cases h
  · rename_i c r e
    split at h
    · obtain ⟨s, -, rfl⟩ := Option.map_eq_some_iff.1 h
      rwa [e] at ht
    · cases h

theorem emissions_unquoted (limits : Limits) (base : Text) {t : Text} (h : Unquoted t) :
    (emissions limits base t).filterMap Emission.entry? = [] := by
  unfold emissions
  split
  · rfl
  · rename_i b hb
    refine scan_unquoted limits base 0 ((h.suffix (objectLiteral_suffix hb)).sublist ?_)
    exact (List.drop_sublist _ _).trans (List.take_sublist _ _)

end MessageCatalog.Literal
