/-
  MessageCatalog.Proofs.File — files hold the texts that were written to them.

  The octets of a code point take the decoder from between code points to between code
  points, with one more code point read. What reading does to line ends it does at carriage
  returns only.

  Proved: a text of Unicode characters without a carriage return is read as it was written
  (`readText_ofText`).
-/

import MessageCatalog.File

namespace MessageCatalog

/-! ## Octets -/

namespace Text.Utf8

def isUnicode (c : Code) : Bool := c < 0x110000 && !isSurrogate c

theorem toNat_tail (n : Nat) : (tail n).toNat = 0x80 + n % 64 := by
  rw [tail, UInt8.toNat_ofNat']
  omega

theorem step_tail {read : Text} {owed value least : Nat} (h : 1 < owed) (n : Nat) :
    (State.within read owed value least).step (tail n) = .within read (owed - 1) (value * 64 + n % 64) least := by
  have hb : ¬ (decide (0x80 + n % 64 < 0x80) || decide (0xC0 ≤ 0x80 + n % 64)) = true := by
    simp only [Bool.or_eq_true, decide_eq_true_eq]
    omega
  simp only [State.step, toNat_tail, if_neg hb, if_pos h, Nat.add_sub_cancel_left]

/-- The last octet of a code point that is not spelled longer than it has to be. -/
theorem step_last {read : Text} {value least c n : Nat} (hc : isUnicode c = true) (hleast : least ≤ c)
    (hvalue : value * 64 + n % 64 = c) : (State.within read 1 value least).step (tail n) = .ready (c :: read) := by
  have hb : ¬ (decide (0x80 + n % 64 < 0x80) || decide (0xC0 ≤ 0x80 + n % 64)) = true := by
    simp only [Bool.or_eq_true, decide_eq_true_eq]
    omega
  have hok : (decide (least ≤ c) && decide (c < 0x110000) && !isSurrogate c) = true := by
    rw [Bool.and_assoc, decide_eq_true hleast, Bool.true_and]
    exact hc
  simp only [State.step, toNat_tail, if_neg hb, Nat.lt_irrefl, if_false, Nat.add_sub_cancel_left, hvalue, hok,
    if_true]

theorem foldl_encodeCode {c : Nat} (hc : isUnicode c = true) (read : Text) :
    (encodeCode c).foldl State.step (.ready read) = .ready (c :: read) := by
  have htop : c < 0x110000 := by
    rw [isUnicode, Bool.and_eq_true, decide_eq_true_eq] at hc
    exact hc.1
  -- One case for each number of octets.
  by_cases h₁ : c < 0x80
  · have hb : (UInt8.ofNat c).toNat = c := by rw [UInt8.toNat_ofNat']; omega
    rw [encodeCode, if_pos h₁, List.foldl_cons, List.foldl_nil, State.step]
    simp only [hb, first, if_pos h₁]
  by_cases h₂ : c < 0x800
  · have hb : (UInt8.ofNat (0xC0 + c / 64)).toNat = 0xC0 + c / 64 := by rw [UInt8.toNat_ofNat']; omega
    have hfirst : (State.ready read).step (.ofNat (0xC0 + c / 64)) = .within read 1 (c / 64) 0x80 := by
      simp only [State.step, hb, first]
      rw [if_neg (by omega), if_neg (by omega), if_pos (by omega), Nat.add_sub_cancel_left]
    rw [encodeCode, if_neg h₁, if_pos h₂, List.foldl_cons, hfirst, List.foldl_cons, List.foldl_nil]
    exact step_last hc (by omega) (by omega)
  by_cases h₃ : c < 0x10000
  · have hb : (UInt8.ofNat (0xE0 + c / 4096)).toNat = 0xE0 + c / 4096 := by rw [UInt8.toNat_ofNat']; omega
    have hfirst : (State.ready read).step (.ofNat (0xE0 + c / 4096)) = .within read 2 (c / 4096) 0x800 := by
      simp only [State.step, hb, first]
      rw [if_neg (by omega), if_neg (by omega), if_neg (by omega), if_pos (by omega), Nat.add_sub_cancel_left]
    rw [encodeCode, if_neg h₁, if_neg h₂, if_pos h₃, List.foldl_cons, hfirst, List.foldl_cons, step_tail (by omega),
      List.foldl_cons, List.foldl_nil]
    exact step_last hc (by omega) (by omega)
  · have hb : (UInt8.ofNat (0xF0 + c / 262144)).toNat = 0xF0 + c / 262144 := by rw [UInt8.toNat_ofNat']; omega
    have hfirst : (State.ready read).step (.ofNat (0xF0 + c / 262144)) = .within read 3 (c / 262144) 0x10000 := by
      simp only [State.step, hb, first]
      rw [if_neg (by omega), if_neg (by omega), if_neg (by omega), if_neg (by omega), if_pos (by omega),
        Nat.add_sub_cancel_left]
    rw [encodeCode, if_neg h₁, if_neg h₂, if_neg h₃, List.foldl_cons, hfirst, List.foldl_cons, step_tail (by omega),
      List.foldl_cons, step_tail (by omega), List.foldl_cons, List.foldl_nil]
    exact step_last hc (by omega) (by omega)

theorem decode_encode {t : Text} (h : t.all isUnicode = true) : decode (t.flatMap encodeCode) = some t := by
  have hall : ∀ read, (t.flatMap encodeCode).foldl State.step (.ready read) = .ready (t.reverse ++ read) := by
    induction t with
    | nil => exact fun read => rfl
    | cons c t ih =>
      intro read
      simp only [List.all_cons, Bool.and_eq_true] at h
      rw [List.flatMap_cons, List.foldl_append, foldl_encodeCode h.1, ih h.2, List.reverse_cons, List.append_assoc]
      rfl
  rw [decode, hall []]
  simp

end Text.Utf8

/-! ## Line ends -/

theorem Text.unifyLineEnds_eq {t : Text} (h : ('\r' : Code) ∉ t) : unifyLineEnds t = t := by
  induction t with
  | nil => rfl
  | cons c t ih =>
    obtain ⟨hc, ht⟩ := List.ne_and_not_mem_of_not_mem_cons h
    rw [unifyLineEnds.eq_def]
    simp only
    rw [if_neg (by simpa using Ne.symm hc), ih ht]

/-! ## Files -/

namespace File

/-- A code point that is written to a file and read from it as it is. -/
def isKept (c : Code) : Bool := Text.Utf8.isUnicode c && c != '\r'

theorem all_isUnicode {t : Text} (h : t.all isKept = true) : t.all Text.Utf8.isUnicode = true := by
  refine List.all_eq_true.2 fun c hc => ?_
  have := List.all_eq_true.1 h c hc
  rw [isKept, Bool.and_eq_true] at this
  exact this.1

def holding (t : Text) : File := .octets (t.flatMap Text.Utf8.encodeCode)

theorem readText_holding {t : Text} (h : t.all isKept = true) : readText (some (holding t)) = .ok t := by
  have hreturn : ('\r' : Code) ∉ t := by
    intro hc
    exact absurd (List.all_eq_true.1 h _ hc) (by decide)
  simp only [readText, holding, Text.Utf8.decode_encode (all_isUnicode h), Text.unifyLineEnds_eq hreturn]

theorem isScalar_of_ofText {t : Text} {file : File} (h : ofText t = .ok file) : t.isScalar = true := by
  rw [ofText, Text.Utf8.encode] at h
  split at h
  · rename_i content hcontent
    exact (Option.ite_none_right_eq_some.1 hcontent).1
  · cases h

theorem readText_ofText {t : Text} (h : t.all isKept = true) :
    ∃ file, ofText t = .ok file ∧ readText (some file) = .ok t := by
  have hscalar : t.isScalar = true := all_isUnicode h
  have hencode : Text.Utf8.encode t = some (t.flatMap Text.Utf8.encodeCode) := by
    rw [Text.Utf8.encode, if_pos hscalar]
  refine ⟨holding t, ?_, readText_holding h⟩
  rw [ofText, hencode]
  rfl

end File

end MessageCatalog
