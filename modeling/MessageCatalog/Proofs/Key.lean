/-
  MessageCatalog.Proofs.Key — the grammar of keys under joining and cutting.

  Proved: a path is a key if and only if both of its parts are (`isValid_join`), and a
  text is what stands around its last dot, joined again (`cutLast_join`).
-/

import MessageCatalog.Key

namespace MessageCatalog

namespace Key

/-! ## Code points -/

theorem continues_of_starts {c : Code} (h : startsSegment c = true) : continuesSegment c = true := by
  rw [continuesSegment, h, Bool.true_or]

theorem continuesSegment_lt {c : Code} (h : continuesSegment c = true) : c < 128 := by
  simp [continuesSegment, startsSegment, Text.isLetter, Text.isUpper, Text.isLower, Text.isDigit] at h
  grind

theorem ne_nil_of_isValid {k : Text} (h : isValid k = true) : k ≠ [] := by
  rintro rfl
  cases h

/-! ## Joining -/

theorem accepts_join (fresh : Bool) (p k : Text) :
    accepts fresh (p ++ ('.' : Code) :: k) = (accepts fresh p && isValid k) := by
  induction p generalizing fresh with
  | nil => cases fresh <;> rfl
  | cons c p ih =>
    rw [List.cons_append, accepts, accepts]
    cases fresh with
    | true => rw [if_pos rfl, if_pos rfl, ih, Bool.and_assoc]
    | false =>
      by_cases hc : c = '.'
      · simp only [Bool.false_eq_true, if_false, if_pos hc, ih]
      · simp only [Bool.false_eq_true, if_false, if_neg hc, ih, Bool.and_assoc]

theorem isValid_join (p k : Text) : isValid (p ++ ('.' : Code) :: k) = (isValid p && isValid k) :=
  accepts_join true p k

end Key

/-! ## Cutting -/

theorem Text.cutLast_append {c : Code} (name : Text) {last : Text} (h : c ∉ last) :
    cutLast c (name ++ c :: last) = (name, last) := by
  have hall : ∀ d ∈ last.reverse, decide (d ≠ c) = true := fun d hd =>
    decide_eq_true fun e => h (e ▸ List.mem_reverse.1 hd)
  have htake : (name ++ c :: last).reverse.takeWhile (fun d => decide (d ≠ c)) = last.reverse := by
    rw [List.reverse_append, List.reverse_cons, List.append_assoc, List.takeWhile_append_of_pos hall]
    simp
  have hlen : (name ++ c :: last).length - last.length - 1 = name.length := by
    simp
    omega
  simp only [cutLast, if_pos (show c ∈ name ++ c :: last by simp), htake, List.reverse_reverse, hlen, List.take_left]

theorem Text.cutLast_join {c : Code} {t : Text} (h : c ∈ t) : (cutLast c t).1 ++ c :: (cutLast c t).2 = t := by
  obtain ⟨last, name, hsplit, hlast⟩ := List.eq_append_cons_of_mem (List.mem_reverse.2 h)
  have ht : t = name.reverse ++ c :: last.reverse := by simpa using congrArg List.reverse hsplit
  rw [ht, cutLast_append name.reverse (mt List.mem_reverse.1 hlast)]

end MessageCatalog
