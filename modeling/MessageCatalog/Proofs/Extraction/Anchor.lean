/-
  MessageCatalog.Proofs.Extraction.Anchor — what the recognizers read and leave.

  A recognizer reads from the front and leaves an ending of its text, so whatever a search
  finds starts and ends at endings of the text searched (`mem_findAll`). In front of its
  string the pattern of an attribute reads nothing that is a quote (`elementKey_split`).
-/

import MessageCatalog.Extraction.LineScan
import MessageCatalog.Proofs.Literal.Suffix

namespace MessageCatalog.Extraction.Anchor

open Literal (isQuote Unquoted)

/-! ## Runs and white space -/

theorem run_cons {p : Code → Bool} {c : Code} (hc : p c = true) (n : Nat) (t : Text) :
    run p (n + 1) (c :: t) = c :: run p n t := by
  rw [run, List.take_succ_cons, List.takeWhile_cons_of_pos hc, run]

theorem run_stop {p : Code → Bool} {c : Code} (hc : p c = false) (n : Nat) (t : Text) :
    run p n (c :: t) = [] := by
  cases n with
  | zero => rfl
  | succ n => rw [run, List.take_succ_cons, List.takeWhile_cons_of_neg (by simp [hc])]

theorem run_append {p : Code → Bool} {s : Text} (hs : s.all p = true) {n : Nat} (hn : s.length ≤ n) {c : Code}
    (hc : p c = false) (t : Text) : run p n (s ++ c :: t) = s := by
  induction s generalizing n with
  | nil => exact run_stop hc n t
  | cons d s ih =>
    simp only [List.all_cons, Bool.and_eq_true] at hs
    obtain ⟨m, rfl⟩ : ∃ m, n = m + 1 := ⟨n - 1, by simp at hn; omega⟩
    rw [List.cons_append, run_cons hs.1, ih hs.2 (by simpa using hn)]

theorem run_start (p : Code → Bool) (n : Nat) (t : Text) : run p n t <+: t :=
  (List.takeWhile_prefix p).trans (List.take_prefix n t)

theorem spaces_solid {c : Code} (hc : Text.isSpace c = false) (t : Text) : spaces (c :: t) = c :: t := by
  rw [spaces, run_stop hc]
  rfl

theorem spaces_one {c : Code} (hc : Text.isSpace c = false) (t : Text) :
    spaces ((' ' : Code) :: c :: t) = c :: t := by
  rw [spaces, maxSpaces, run_cons (by decide), run_stop hc]
  rfl

theorem someSpaces_one {c : Code} (hc : Text.isSpace c = false) (t : Text) :
    someSpaces ((' ' : Code) :: c :: t) = some (c :: t) := by
  rw [someSpaces, spaces_one hc]
  rfl

theorem spaced_solid {c d : Code} (hc : Text.isSpace c = false) (hd : Text.isSpace d = false) (t : Text) :
    spaced c (c :: d :: t) = some (d :: t) := by
  rw [spaced, spaces_solid hc]
  simp only [beq_self_eq_true, if_true, spaces_solid hd]

theorem spaced_one {c d : Code} (hc : Text.isSpace c = false) (hd : Text.isSpace d = false) (t : Text) :
    spaced c (c :: (' ' : Code) :: d :: t) = some (d :: t) := by
  rw [spaced, spaces_solid hc]
  simp only [beq_self_eq_true, if_true, spaces_one hd]

/-! ## Endings -/

section

variable {t r : Text}

theorem spaces_suffix (t : Text) : spaces t <:+ t := List.drop_suffix _ _

theorem someSpaces_suffix (h : someSpaces t = some r) : r <:+ t := by
  rw [someSpaces] at h
  split at h
  · cases h
    exact spaces_suffix t
  · cases h

theorem spaced_suffix {c : Code} (h : spaced c t = some r) : r <:+ t := by
  have ht := spaces_suffix t
  unfold spaced at h
  split at h
  · rename_i d s e
    rw [e] at ht
    split at h
    · cases h
      exact (spaces_suffix s).trans (Literal.suffix_of_cons ht)
    · cases h
  · cases h

theorem dropStart_split {w : Text} (h : Text.dropStart? w t = some r) : t = w ++ r := by
  rw [Text.dropStart?] at h
  split at h
  · rename_i hw
    obtain ⟨s, rfl⟩ := List.isPrefixOf_iff_prefix.1 hw
    rw [List.drop_left] at h
    rw [Option.some.inj h]
  · cases h

theorem dropStart_suffix {w : Text} (h : Text.dropStart? w t = some r) : r <:+ t :=
  ⟨w, (dropStart_split h).symm⟩

theorem word_split {w : Text} {before : Option Code} (h : word w before t = some r) : t = w ++ r := by
  rw [word] at h
  split at h
  · exact dropStart_split h
  · cases h

theorem word_none {w s : Text} (h : Text.dropStart? w s = none) (before : Option Code) : word w before s = none := by
  rw [word, h, ite_self]

/-- A string that is read stands between its quotes. -/
theorem quoted_split {most : Nat} {body : Text} (h : quoted most t = some (body, r)) :
    ∃ q, isQuote q = true ∧ t = q :: (body ++ q :: r) := by
  unfold quoted at h
  split at h
  · cases h
  · rename_i q s
    split at h
    · rename_i hq
      dsimp only at h
      split at h
      · cases h
      · obtain ⟨s', hs', e⟩ := Option.map_eq_some_iff.1 h
        obtain ⟨rfl, rfl⟩ := Prod.mk.inj e
        have hbody := List.prefix_iff_eq_append.1
          (run_start (fun c => c != q && c != '\n' && c != '\\' && !(q == '`' && c == '$')) most s)
        rw [dropStart_split hs'] at hbody
        exact ⟨q, hq, congrArg (q :: ·) hbody.symm⟩
    · cases h

theorem word_suffix {w : Text} {before : Option Code} (h : word w before t = some r) : r <:+ t :=
  ⟨w, (word_split h).symm⟩

theorem call_suffix {before : Option Code} {k : CallKind} (h : call before t = some (k, r)) : r <:+ t := by
  obtain ⟨k', -, h⟩ := List.exists_of_findSome?_eq_some h
  obtain ⟨s, hs, h⟩ := Option.bind_eq_some_iff.1 h
  obtain ⟨u, hu, h⟩ := Option.bind_eq_some_iff.1 h
  obtain ⟨-, rfl⟩ := Prod.mk.inj (Option.some.inj h)
  exact (dropStart_suffix hu).trans ((spaces_suffix s).trans (word_suffix hs))

theorem property_suffix {name : Text} {before : Option Code} (h : property name before t = some r) : r <:+ t := by
  obtain ⟨s, hs, h⟩ := Option.bind_eq_some_iff.1 h
  exact (spaced_suffix h).trans (word_suffix hs)

theorem typed_suffix (t : Text) : typed t <:+ t := by
  unfold typed
  split
  · exact List.suffix_refl []
  · split
    · exact (List.drop_suffix _ _).trans (List.suffix_cons _ _)
    · exact List.suffix_refl _

theorem equals_suffix (h : equals t = some r) : r <:+ t := by
  unfold equals at h
  split at h
  · cases h
  · split at h
    · cases h
      exact List.suffix_cons _ _
    · cases h

theorem assigned_suffix {most : Nat} {name : Text} (h : assigned most t = some (name, r)) : r <:+ t := by
  unfold assigned at h
  split at h
  · cases h
  · rename_i c s
    split at h
    · obtain ⟨u, hu, e⟩ := Option.map_eq_some_iff.1 h
      obtain ⟨-, rfl⟩ := Prod.mk.inj e
      exact (equals_suffix hu).trans ((typed_suffix _).trans ((spaces_suffix _).trans
        ((List.drop_suffix _ _).trans (List.suffix_cons c s))))
    · cases h

theorem exported_suffix {keywords : List Text} {most : Nat} {before : Option Code} {name : Text}
    (h : exported keywords most before t = some (name, r)) : r <:+ t := by
  obtain ⟨s, hs, h⟩ := Option.bind_eq_some_iff.1 h
  obtain ⟨u, hu, h⟩ := Option.bind_eq_some_iff.1 h
  obtain ⟨v, hv, h⟩ := Option.bind_eq_some_iff.1 h
  obtain ⟨w, hw, h⟩ := Option.bind_eq_some_iff.1 h
  obtain ⟨k, -, hk⟩ := List.exists_of_findSome?_eq_some hv
  exact (assigned_suffix h).trans ((someSpaces_suffix hw).trans
    ((dropStart_suffix hk).trans ((someSpaces_suffix hu).trans (word_suffix hs))))

end

/-! ## Attributes -/

section

variable {t r : Text}

theorem unquoted_append {s t : Text} (hs : Unquoted s) (ht : Unquoted t) : Unquoted (s ++ t) := fun c hc =>
  (List.mem_append.1 hc).elim (hs c) (ht c)

theorem spaces_split (t : Text) : ∃ w, t = w ++ spaces t ∧ Unquoted w := by
  refine ⟨run Text.isSpace maxSpaces t, (List.prefix_iff_eq_append.1 (run_start _ _ _)).symm, fun c hc => ?_⟩
  have hspace : Text.isSpace c = true := List.all_eq_true.1 List.all_takeWhile c hc
  refine Bool.eq_false_iff.2 fun hq => ?_
  rw [Literal.isSpace_quote hq] at hspace
  cases hspace

theorem spaced_split {c : Code} (hc : isQuote c = false) (h : spaced c t = some r) : ∃ w, t = w ++ r ∧ Unquoted w := by
  obtain ⟨u, hu, hunquoted⟩ := spaces_split t
  unfold spaced at h
  split at h
  · rename_i d s e
    split at h
    · rename_i hd
      obtain ⟨v, hv, hunquoted'⟩ := spaces_split s
      rw [Option.some.inj h] at hv
      refine ⟨u ++ d :: v, by rw [hu, e, hv, List.append_assoc, List.cons_append], unquoted_append hunquoted ?_⟩
      exact List.forall_mem_cons.2 ⟨by rw [eq_of_beq hd, hc], hunquoted'⟩
    · cases h
  · cases h

/-- The pattern of an attribute reads its name, no quote, and a string. -/
theorem elementKey_split {before : Option Code} {key : Text} (h : elementKey before t = some (key, r)) :
    ∃ w q, t = ("i18nKey" : Text) ++ (w ++ q :: (key ++ q :: r)) ∧ Unquoted w ∧ isQuote q = true := by
  obtain ⟨s, hs, h⟩ := Option.bind_eq_some_iff.1 h
  obtain ⟨u, hu, h⟩ := Option.bind_eq_some_iff.1 h
  obtain ⟨w, hw, hunquoted⟩ := spaced_split (by decide) hu
  have hbrace : ∃ x, u = x ++ (if Text.headIs '{' u then spaces u.tail else spaces u) ∧ Unquoted x := by
    split
    · rename_i hhead
      cases u with
      | nil => cases hhead
      | cons c u =>
        obtain ⟨x, hx, hunquoted'⟩ := spaces_split u
        obtain rfl : c = '{' := by simpa [Text.headIs] using hhead
        exact ⟨('{' : Code) :: x, congrArg _ hx, List.forall_mem_cons.2 ⟨rfl, hunquoted'⟩⟩
    · exact spaces_split u
  obtain ⟨x, hx, hunquoted'⟩ := hbrace
  obtain ⟨q, hq, hstring⟩ := quoted_split h
  refine ⟨w ++ x, q, ?_, unquoted_append hunquoted hunquoted', hq⟩
  rw [word_split hs, hw, hx, hstring, List.append_assoc]

theorem quote_unique {w x s u : Text} {p q : Code} (hw : Unquoted w) (hx : Unquoted x) (hp : isQuote p = true)
    (hq : isQuote q = true) (h : w ++ p :: s = x ++ q :: u) : w = x ∧ p = q ∧ s = u := by
  induction w generalizing x with
  | nil =>
    cases x with
    | nil =>
      obtain ⟨rfl, rfl⟩ := List.cons.inj h
      exact ⟨rfl, rfl, rfl⟩
    | cons d x =>
      obtain ⟨rfl, -⟩ := List.cons.inj h
      rw [hx p List.mem_cons_self] at hp
      cases hp
  | cons c w ih =>
    cases x with
    | nil =>
      obtain ⟨rfl, -⟩ := List.cons.inj h
      rw [hw c List.mem_cons_self] at hq
      cases hq
    | cons d x =>
      obtain ⟨rfl, htail⟩ := List.cons.inj h
      obtain ⟨rfl, hrest⟩ := ih (fun c hc => hw c (List.mem_cons_of_mem _ hc))
        (fun c hc => hx c (List.mem_cons_of_mem _ hc)) htail
      exact ⟨rfl, hrest⟩

theorem suffix_append_cons {s a b : Text} {q : Code} (h : s <:+ a ++ q :: b) :
    (∃ x, x <:+ a ∧ s = x ++ q :: b) ∨ s <:+ b := by
  induction a with
  | nil =>
    rcases List.suffix_cons_iff.1 h with rfl | h
    · exact .inl ⟨[], List.suffix_refl [], rfl⟩
    · exact .inr h
  | cons c a ih =>
    rcases List.suffix_cons_iff.1 h with rfl | h
    · exact .inl ⟨c :: a, List.suffix_refl _, rfl⟩
    · rcases ih h with ⟨x, hx, rfl⟩ | h
      · exact .inl ⟨x, hx.trans (List.suffix_cons c a), rfl⟩
      · exact .inr h

/-- An attribute that is read on a text with a quote in it is read behind the quote, or
it is the quote that its key starts with. -/
theorem elementKey_start {before : Option Code} {key a b s : Text} {q : Code} (ha : Unquoted a)
    (hq : isQuote q = true) (hs : s <:+ a ++ q :: b) (h : elementKey before s = some (key, r)) :
    s <:+ b ∨ ('K' : Code) ∈ a ∧ b = key ++ q :: r ∧ (q :: b).length < s.length := by
  rcases suffix_append_cons hs with ⟨w, hw, rfl⟩ | hs
  · obtain ⟨x, p, hsplit, hx, hp⟩ := elementKey_split h
    have hname : ∀ c ∈ ("i18nKey" : Text), isQuote c = false := by decide
    rw [← List.append_assoc] at hsplit
    obtain ⟨rfl, rfl, rfl⟩ := quote_unique (ha.suffix hw) (unquoted_append hname hx) hq hp hsplit
    refine .inr ⟨hw.subset (List.mem_append_left x (by decide)), rfl, ?_⟩
    rw [List.length_append, List.length_append]
    exact Nat.lt_add_of_pos_left (Nat.add_pos_left (by decide) _)
  · exact .inl hs

/-- Without a quote there is no key. -/
theorem elementKey_unquoted (before : Option Code) (h : Unquoted t) : elementKey before t = none := by
  cases hkey : elementKey before t with
  | none => rfl
  | some x =>
    obtain ⟨w, q, rfl, -, hq⟩ := elementKey_split hkey
    rw [h q (by simp)] at hq
    cases hq

theorem elementKey_suffix {before : Option Code} {key : Text} (h : elementKey before t = some (key, r)) : r <:+ t := by
  obtain ⟨w, q, rfl, -⟩ := elementKey_split h
  exact ⟨("i18nKey" : Text) ++ (w ++ q :: (key ++ [q])), by simp⟩

end

/-! ## Searching -/

theorem findAll_now {α : Type} {recognize : Option Code → Text → Option (α × Text)} {before : Option Code} {t r : Text}
    {a : α} (h : recognize before t = some (a, r)) (hr : r.length < t.length) :
    ∃ before', findAll recognize before t = ⟨a, t, r⟩ :: findAll recognize before' r := by
  cases t with
  | nil => exact absurd hr (Nat.not_lt_zero _)
  | cons c t =>
    rw [findAll, h]
    exact ⟨_, if_pos hr⟩

theorem findAll_none {α : Type} {recognize : Option Code → Text → Option (α × Text)} {t : Text}
    (h : ∀ before s, s <:+ t → recognize before s = none) (before : Option Code) : findAll recognize before t = [] := by
  induction t generalizing before with
  | nil => rw [findAll]
  | cons c t ih =>
    rw [findAll, h before (c :: t) (List.suffix_refl _)]
    exact ih (fun b s hs => h b s (hs.trans (List.suffix_cons c t))) (some c)

section

variable {α : Type} {recognize : Option Code → Text → Option (α × Text)}
  (hsuffix : ∀ {before t a r}, recognize before t = some (a, r) → r <:+ t)

include hsuffix

theorem mem_findAll {before : Option Code} {t : Text} {f : Found α} (hf : f ∈ findAll recognize before t) :
    f.start <:+ t ∧ ∃ before, recognize before f.start = some (f.value, f.rest) := by
  fun_induction findAll recognize before t with
  | case1 => cases hf
  | case2 before c r a rest hr _ ih =>
    rcases List.mem_cons.1 hf with rfl | hf
    · exact ⟨List.suffix_refl _, before, hr⟩
    · obtain ⟨hstart, hfound⟩ := ih hf
      exact ⟨hstart.trans (hsuffix hr), hfound⟩
  | case3 before c r a rest _ _ ih | case4 before c r _ ih =>
    obtain ⟨hstart, hfound⟩ := ih hf
    exact ⟨hstart.trans (List.suffix_cons c r), hfound⟩

theorem rest_findAll {before : Option Code} {t : Text} {f : Found α} (hf : f ∈ findAll recognize before t) :
    f.rest <:+ t := by
  obtain ⟨hstart, b, hr⟩ := mem_findAll hsuffix hf
  exact (hsuffix hr).trans hstart

end

end MessageCatalog.Extraction.Anchor
