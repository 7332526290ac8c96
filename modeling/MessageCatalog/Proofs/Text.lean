/-
  MessageCatalog.Proofs.Text — cutting, joining and trimming.

  A trimmed text neither begins nor ends with what is trimmed, and a text that does not is
  its own trimming. Pieces without the separator are found again in what they are joined to.
-/

import MessageCatalog.Text.Blank

namespace MessageCatalog.Text

/-! ## Joining and splitting -/

theorem joinWith_cons {sep a : Text} {as : List Text} (h : as ≠ []) :
    joinWith sep (a :: as) = a ++ (sep ++ joinWith sep as) := by
  cases as with
  | nil => exact absurd rfl h
  | cons b bs => simp [joinWith, List.intercalate, List.intersperse]

theorem joinWith_single (sep a : Text) : joinWith sep [a] = a := by simp [joinWith]

theorem splitOn_plain {c : Code} {t : Text} (h : c ∉ t) : splitOn c t = [t] := by
  induction t with
  | nil => rfl
  | cons d t ih =>
    obtain ⟨hd, ht⟩ := List.ne_and_not_mem_of_not_mem_cons h
    simp only [splitOn, ih ht, if_neg hd.symm]

theorem splitOn_ne_nil (c : Code) (t : Text) : splitOn c t ≠ [] := by
  cases t with
  | nil => exact List.cons_ne_nil _ _
  | cons d t =>
    rw [splitOn]
    split
    · split <;> exact List.cons_ne_nil _ _
    · exact List.cons_ne_nil _ _

theorem splitOn_append {c : Code} {a : Text} (h : c ∉ a) (t : Text) :
    splitOn c (a ++ c :: t) = a :: splitOn c t := by
  induction a with
  | nil =>
    rw [List.nil_append, splitOn]
    split
    · rename_i hrest
      rw [if_pos rfl, hrest]
    · rename_i hrest
      exact absurd hrest (splitOn_ne_nil c t)
  | cons d a ih =>
    obtain ⟨hd, ha⟩ := List.ne_and_not_mem_of_not_mem_cons h
    rw [List.cons_append, splitOn, ih ha]
    simp only [if_neg hd.symm]

theorem splitOn_join {c : Code} {ts : List Text} (hne : ts ≠ []) (h : ∀ t ∈ ts, c ∉ t) :
    splitOn c (joinWith [c] ts) = ts := by
  induction ts with
  | nil => exact absurd rfl hne
  | cons a ts ih =>
    have ha : c ∉ a := h a List.mem_cons_self
    cases ts with
    | nil => rw [joinWith_single, splitOn_plain ha]
    | cons b ts =>
      rw [joinWith_cons (by simp), List.singleton_append, splitOn_append ha,
        ih (by simp) fun t ht => h t (List.mem_cons_of_mem a ht)]

/-! ## Trimming -/

/-- Neither the first code point nor the last one has the property. -/
structure IsTrimmed (p : Code → Bool) (t : Text) : Prop where
  first : ∀ c ∈ t.head?, p c = false
  last : ∀ c ∈ t.getLast?, p c = false

theorem isTrimmed_trimBy (p : Code → Bool) (t : Text) : IsTrimmed p (trimBy p t) := by
  have hfront (u : Text) : ∀ c ∈ (u.dropWhile p).head?, p c = false := fun c hc => by
    have := List.head?_dropWhile_not p u
    rw [Option.mem_def.1 hc] at this
    simpa using this
  refine ⟨fun c hc => hfront t c ?_, fun c hc => hfront (t.dropWhile p).reverse c ?_⟩
  · -- what is cut from the end leaves the first code point
    rw [trimBy, List.head?_reverse] at hc
    obtain ⟨cut, hcut⟩ := List.dropWhile_suffix p (l := (t.dropWhile p).reverse)
    have hlast : c ∈ (t.dropWhile p).reverse.getLast? := by
      rw [← hcut, Option.mem_def, List.getLast?_append, Option.mem_def.1 hc, Option.some_or]
    rwa [List.getLast?_reverse] at hlast
  · rwa [trimBy, List.getLast?_reverse] at hc

theorem trimBy_eq_self {p : Code → Bool} {t : Text} (h : IsTrimmed p t) : trimBy p t = t := by
  have hdrop {u : Text} (hu : ∀ c ∈ u.head?, p c = false) : u.dropWhile p = u := by
    cases u with
    | nil => rfl
    | cons c u => exact List.dropWhile_cons_of_neg (by simp [hu c rfl])
  rw [trimBy, hdrop h.first, hdrop (by rw [List.head?_reverse]; exact h.last), List.reverse_reverse]

/-! ## Beginnings, parts and windows -/

theorem headIs_cons {c : Code} {t : Text} (h : headIs c t = true) : ∃ r, t = c :: r := by
  cases t with
  | nil => cases h
  | cons d r =>
    obtain rfl : d = c := by simpa [headIs] using h
    exact ⟨r, rfl⟩

theorem contains_iff {part t : Text} : contains part t = true ↔ part <:+: t := by
  induction t with
  | nil => rw [contains, List.isEmpty_iff, List.infix_nil]
  | cons c t ih => rw [contains, Bool.or_eq_true, List.isPrefixOf_iff_prefix, ih, List.infix_cons_iff]

/-- What a text begins with stands in front of a code point that is none of its own. -/
theorem prefix_line {w s t : Text} {c : Code} (hc : c ∉ w) (h : w <+: s ++ c :: t) : w <+: s := by
  have hline : s ++ [c] <+: s ++ c :: t := ⟨t, by simp⟩
  rcases List.prefix_or_prefix_of_prefix h hline with hw | hw
  · rcases List.prefix_concat_iff.1 hw with rfl | hw
    · exact absurd (List.mem_append_right s List.mem_cons_self) hc
    · exact hw
  · exact absurd (hw.subset (List.mem_append_right s List.mem_cons_self)) hc

theorem window_eq_take (t : Text) (start stop : Nat) : window t start stop = (t.drop start).take (stop - start) := by
  rw [window, List.drop_take]

theorem length_window {t : Text} {stop : Nat} (h : stop ≤ t.length) (start : Nat) :
    (window t start stop).length = stop - start := by
  rw [window, List.length_drop, List.length_take, Nat.min_eq_left h]

theorem window_whole (t : Text) : window t 0 t.length = t := by
  rw [window, List.take_length, List.drop_zero]

theorem window_append (before t : Text) (n : Nat) :
    window (before ++ t) before.length (before.length + n) = t.take n := by
  rw [window_eq_take, List.drop_left, Nat.add_sub_cancel_left]

theorem window_split (t : Text) {start stop : Nat} (h : start ≤ stop) :
    t = t.take start ++ (window t start stop ++ t.drop stop) := by
  have hdrop : t.drop stop = (t.drop start).drop (stop - start) := by
    rw [List.drop_drop, Nat.add_sub_cancel' h]
  rw [window_eq_take, hdrop, List.take_append_drop, List.take_append_drop]

theorem window_inside {t body rest : Text} {start stop : Nat} {c : Code}
    (h : window t start stop = c :: (body ++ rest)) : window t (start + 1) (start + 1 + body.length) = body := by
  have hdrop := congrArg (fun w => (w.drop 1).take body.length) h
  rw [window_eq_take] at hdrop
  rw [window_eq_take, Nat.add_sub_cancel_left]
  have hlength := congrArg List.length h
  simp only [window, List.length_drop, List.length_take, List.length_cons, List.length_append] at hlength
  simp only [List.drop_take, List.drop_drop, List.take_take, List.drop_succ_cons, List.drop_zero,
    List.take_left'] at hdrop
  rwa [Nat.min_eq_left (by omega)] at hdrop

theorem getElem?_window {t : Text} {start stop : Nat} {c : Code} (pre : Text) {post : Text}
    (h : window t start stop = pre ++ c :: post) : t[start + pre.length]? = some c := by
  have hc : (window t start stop)[pre.length]? = some c := by rw [h]; simp
  rw [window, List.getElem?_drop] at hc
  obtain ⟨hlt, hget⟩ := List.getElem?_eq_some_iff.1 hc
  rw [List.getElem_take] at hget
  exact List.getElem?_eq_some_iff.2 ⟨_, hget⟩

end MessageCatalog.Text
