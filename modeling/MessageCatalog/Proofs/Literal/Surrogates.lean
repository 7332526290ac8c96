/-
  MessageCatalog.Proofs.Literal.Surrogates — where surrogates in a text come from.

  A reader of escapes gives a code point as it stands, or the one that an escape names. Two
  kinds of escape can name a surrogate, four digits and digits in braces, and each is decoded
  by itself: a pair of them is two surrogates. Everything else denotes a Unicode character.

  Proved: a code point of a text that is read from a piece of a source stands in the source,
  is a Unicode character, or is a surrogate that an escape in the source names
  (`unquote_held`, `emissions_held`).
-/

import Mathlib.Algebra.GroupWithZero.Nat
import MessageCatalog.Proofs.File
import MessageCatalog.Proofs.Literal.Suffix

namespace MessageCatalog.Literal

open Text (isSurrogate)
open Text.Utf8 (isUnicode)

/-! ## Escapes that name surrogates -/

/-- The surrogate that an escape at the front names. -/
def surrogateAt? : Text → Option Code
  | b :: u :: r =>
    if b == '\\' && u == 'u' then
      (if Text.headIs '{' r then (bracedHex r.tail).map (·.1) else fixedHex 4 r).filter isSurrogate
    else none
  | _ => none

/-- The surrogates that escapes name, wherever they stand. -/
def surrogates : Text → List Code
  | [] => []
  | c :: r => (surrogateAt? (c :: r)).toList ++ surrogates r

/-! ## Pieces -/

section

variable {s t : Text}

theorem fixedHex_some_append {n : Nat} {d : Code} (h : fixedHex n t = some d) (u : Text) :
    fixedHex n (t ++ u) = some d := by
  have hn := (fixedHex_some h).1
  rw [← h]
  simp only [fixedHex, List.take_append_of_le_length hn]

theorem bracedHex_some_append {p : Code × Nat} (h : bracedHex t = some p) (u : Text) :
    bracedHex (t ++ u) = some p := by
  simp only [bracedHex] at h ⊢
  split at h
  · rename_i hc
    simp only [Bool.and_eq_true, decide_eq_true_eq] at hc
    -- the closing brace stands in the first part, so the digits do
    have hdigits : ((t ++ u).take 9).takeWhile (fun (c : Code) => c != '}') =
        (t.take 9).takeWhile fun (c : Code) => c != '}' := by
      rw [List.take_append, List.takeWhile_append, if_neg (by omega)]
    have hlength : (t.take 9).length ≤ ((t ++ u).take 9).length := by
      rw [List.take_append, List.length_append]
      exact Nat.le_add_right _ _
    simp only [hdigits, h]
    rw [if_pos]
    simp only [Bool.and_eq_true, decide_eq_true_eq]
    exact ⟨⟨⟨Nat.lt_of_lt_of_le hc.1.1.1 hlength, hc.1.1.2⟩, hc.1.2⟩, hc.2⟩
  · cases h

theorem surrogateAt_append {c : Code} (h : surrogateAt? t = some c) (u : Text) :
    surrogateAt? (t ++ u) = some c := by
  unfold surrogateAt? at h
  split at h
  · rename_i b d r
    split at h
    · rename_i hescape
      obtain ⟨hnamed, hc⟩ := Option.filter_eq_some_iff.1 h
      rw [List.cons_append, List.cons_append, surrogateAt?, if_pos hescape, Option.filter_eq_some_iff]
      refine ⟨?_, hc⟩
      by_cases hb : Text.headIs '{' r = true
      · obtain ⟨r, rfl⟩ := Text.headIs_cons hb
        rw [if_pos hb] at hnamed
        obtain ⟨p, hp, rfl⟩ := Option.map_eq_some_iff.1 hnamed
        rw [List.tail_cons] at hp
        rw [List.cons_append, if_pos (by rfl), List.tail_cons, bracedHex_some_append hp u, Option.map_some]
      · rw [if_neg hb] at hnamed
        have hb' : ¬ Text.headIs '{' (r ++ u) = true := by
          cases r with
          | nil => cases hnamed
          | cons c r => exact hb
        rw [if_neg hb', fixedHex_some_append hnamed u]
    · cases h
  · cases h

theorem surrogates_suffix (h : s <:+ t) : surrogates s ⊆ surrogates t := by
  induction t with
  | nil =>
    rw [List.suffix_nil.1 h]
    exact List.nil_subset _
  | cons c t ih =>
    rcases List.suffix_cons_iff.1 h with rfl | h
    · exact fun _ hc => hc
    · exact fun _ hc => List.mem_append_right _ (ih h hc)

theorem surrogates_append (u : Text) : surrogates s ⊆ surrogates (s ++ u) := by
  induction s with
  | nil => exact List.nil_subset _
  | cons c s ih =>
    intro d hd
    rw [List.cons_append, surrogates]
    rcases List.mem_append.1 hd with hd | hd
    · have happend := surrogateAt_append (Option.mem_toList.1 hd) u
      exact List.mem_append_left _ (Option.mem_toList.2 happend)
    · exact List.mem_append_right _ (ih hd)

theorem surrogates_piece (h : s <:+: t) : surrogates s ⊆ surrogates t := by
  obtain ⟨before, after, rfl⟩ := h
  rw [List.append_assoc]
  exact fun _ hc => surrogates_suffix (List.suffix_append before _) (surrogates_append after hc)

/-! ## Where a code point comes from -/

/-- It stands in the source, is a Unicode character, or is named by an escape in it. -/
def Held (source : Text) (c : Code) : Prop := c ∈ source ∨ isUnicode c = true ∨ c ∈ surrogates source

theorem Held.mono {c : Code} (h : s <:+: t) : Held s c → Held t c
  | .inl hc => .inl (h.subset hc)
  | .inr (.inl hc) => .inr (.inl hc)
  | .inr (.inr hc) => .inr (.inr (surrogates_piece h hc))

/-- A text whose code points all come from the source. -/
def AllHeld (source t : Text) : Prop := ∀ c ∈ t, Held source c

theorem AllHeld.append {u : Text} (hs : AllHeld u s) (ht : AllHeld u t) : AllHeld u (s ++ t) := by
  intro c hc
  rcases List.mem_append.1 hc with hc | hc
  · exact hs c hc
  · exact ht c hc

theorem AllHeld.mono {u : Text} (h : s <:+: t) (hu : AllHeld s u) : AllHeld t u := fun c hc => (hu c hc).mono h

theorem held_of_piece (h : s <:+: t) : AllHeld t s := fun _ hc => .inl (h.subset hc)

theorem held_of_le {d : Nat} (hd : d ≤ 0x10FFFF) (h : isSurrogate d = true → d ∈ surrogates t) : Held t d := by
  by_cases hs : isSurrogate d = true
  · exact .inr (.inr (h hs))
  · refine .inr (.inl ?_)
    have htop : d < 0x110000 := Nat.lt_succ_of_le hd
    rw [isUnicode, Bool.eq_false_iff.2 hs, decide_eq_true htop]
    rfl

end

/-! ## Escapes -/

theorem hexDigit_lt {c : Nat} (h : Text.isHexDigit c = true) : Text.hexDigit c < 16 := by
  have hc : (48 ≤ c ∧ c ≤ 57 ∨ 97 ≤ c ∧ c ≤ 102) ∨ 65 ≤ c ∧ c ≤ 70 := by
    simpa only [Text.isHexDigit, Text.isDigit, Bool.or_eq_true, Bool.and_eq_true, decide_eq_true_eq] using h
  have hvalue : Text.hexDigit c = if 48 ≤ c ∧ c ≤ 57 then c - 48 else if c ≤ 70 then c - 55 else c - 87 := by
    simp only [Text.hexDigit, Text.isDigit, Bool.and_eq_true, decide_eq_true_eq]
  rw [hvalue]
  split
  · omega
  · split <;> omega

theorem hexValue_lt {ds : Text} (h : ds.all Text.isHexDigit = true) : Text.hexValue ds < 16 ^ ds.length := by
  have hall : ∀ (ds : Text) (n : Nat), ds.all Text.isHexDigit = true →
      ds.foldl (fun n d => n * 16 + Text.hexDigit d) n < (n + 1) * 16 ^ ds.length := by
    intro ds
    induction ds with
    | nil => intro n _; simp
    | cons d ds ih =>
      intro n h
      rw [List.all_cons, Bool.and_eq_true] at h
      have hd := hexDigit_lt h.1
      calc ds.foldl (fun n d => n * 16 + Text.hexDigit d) (n * 16 + Text.hexDigit d)
          < (n * 16 + Text.hexDigit d + 1) * 16 ^ ds.length := ih _ h.2
        _ ≤ ((n + 1) * 16) * 16 ^ ds.length := Nat.mul_le_mul_right _ (by omega)
        _ = (n + 1) * 16 ^ (d :: ds).length := by rw [List.length_cons, Nat.pow_succ', Nat.mul_assoc]
  simpa [Text.hexValue] using hall ds 0 h

theorem fixedHex_lt {n : Nat} {t : Text} {d : Code} (h : fixedHex n t = some d) : d < 16 ^ n := by
  simp only [fixedHex] at h
  split at h
  · rename_i hc
    simp only [Bool.and_eq_true, decide_eq_true_eq] at hc
    have hlt := hexValue_lt hc.2
    rw [hc.1] at hlt
    rwa [← Option.some.inj h]
  · cases h

theorem bracedHex_le {t : Text} {p : Code × Nat} (h : bracedHex t = some p) : p.1 ≤ 0x10FFFF := by
  simp only [bracedHex] at h
  split at h
  · rename_i hc
    simp only [Bool.and_eq_true, decide_eq_true_eq] at hc
    rw [← Option.some.inj h]
    exact hc.2
  · cases h

theorem simpleEscape_lt {c d : Code} (h : simpleEscape c = some d) : d < 0x80 := by
  have hall : ∀ e ∈ simpleEscape c, e < 0x80 := by
    unfold simpleEscape
    repeat' split
    all_goals simp
  exact hall d h

theorem held_of_lt {t : Text} {d : Nat} (hd : d < 0xD800) : Held t d := by
  refine held_of_le (by omega) fun hs => ?_
  rw [isSurrogate, Bool.and_eq_true, decide_eq_true_eq] at hs
  exact absurd hs.1 (Nat.not_le.2 hd)

theorem mem_surrogates {r t : Text} {d : Code} (h : ('\\' : Code) :: ('u' : Code) :: r <:+: t)
    (hd : (if Text.headIs '{' r then (bracedHex r.tail).map (·.1) else fixedHex 4 r) = some d)
    (hs : isSurrogate d = true) : d ∈ surrogates t := by
  refine surrogates_piece h (List.mem_append_left _ (Option.mem_toList.2 ?_))
  rw [surrogateAt?, if_pos (by rfl), Option.filter_eq_some_iff]
  exact ⟨hd, hs⟩

theorem escape_held {r t : Text} (h : ('\\' : Code) :: r <:+: t) : AllHeld t (escape r).1 := by
  cases r with
  | nil => exact fun c hc => absurd hc List.not_mem_nil
  | cons c r =>
    have hself : Held t c := .inl (h.subset (by simp))
    simp only [escape]
    split
    · rename_i d hd
      exact List.forall_mem_singleton.2 (held_of_lt (Nat.lt_trans (simpleEscape_lt hd) (by decide)))
    split
    · exact fun c hc => absurd hc List.not_mem_nil
    split
    · exact fun c hc => absurd hc List.not_mem_nil
    split
    · split
      · rename_i d hd
        exact List.forall_mem_singleton.2 (held_of_lt (Nat.lt_trans (fixedHex_lt hd) (by decide)))
      · exact List.forall_mem_singleton.2 (held_of_lt (by decide))
    split
    · rename_i hu
      obtain rfl := beq_iff_eq.1 hu
      split
      · rename_i hb
        split
        · rename_i d n hd
          refine List.forall_mem_singleton.2 (held_of_le (bracedHex_le hd) (mem_surrogates h ?_))
          rw [if_pos hb, hd, Option.map_some]
        · exact List.forall_mem_singleton.2 (held_of_lt (by decide))
      · rename_i hb
        split
        · rename_i d hd
          have hle : d ≤ 0x10FFFF := Nat.le_trans (Nat.le_of_lt (fixedHex_lt hd)) (by decide)
          refine List.forall_mem_singleton.2 (held_of_le hle (mem_surrogates h ?_))
          rw [if_neg hb, hd]
        · exact List.forall_mem_singleton.2 (held_of_lt (by decide))
    · exact List.forall_mem_singleton.2 hself

/-! ## Strings -/

theorem trim_piece (t : Text) : t.trim <:+: t := by
  have hend : ((t.dropWhile Text.isSpace).reverse.dropWhile Text.isSpace).reverse <+: t.dropWhile Text.isSpace := by
    have h := List.dropWhile_suffix Text.isSpace (l := (t.dropWhile Text.isSpace).reverse)
    simpa using List.reverse_prefix.2 h
  exact hend.isInfix.trans (List.dropWhile_suffix _).isInfix

theorem readBody_held {q : Code} {giveUp : Reading} {body t u : Text} {budget : Nat} {acc : Text}
    (hg : giveUp.value = none) (hacc : AllHeld u acc) (ht : t <:+ u) :
    ∀ v ∈ (readBody q giveUp body budget acc t).value, AllHeld u v := by
  fun_induction readBody q giveUp body budget acc t with
  | case1 | case2 =>
    rw [hg]
    exact fun v hv => by cases hv
  | case3 =>
    intro v hv c hc
    rw [← Option.some.inj hv] at hc
    exact hacc c (List.mem_reverse.1 hc)
  | case4 acc c r budget _ hc d n he ih =>
    obtain rfl := beq_iff_eq.1 hc
    have hd := escape_held ht.isInfix
    rw [he] at hd
    refine ih (AllHeld.append (fun e h => hd e (List.mem_reverse.1 h)) hacc) ?_
    exact (List.drop_suffix n r).trans (suffix_of_cons ht)
  | case5 | case6 => exact fun v hv => by cases hv
  | case7 acc c r budget _ _ _ _ ih =>
    refine ih (fun e h => ?_) (suffix_of_cons ht)
    rcases List.mem_cons.1 h with rfl | h
    · exact .inl (ht.subset List.mem_cons_self)
    · exact hacc e h

theorem readString_held (maxLength : Option Nat) (t : Text) : ∀ v ∈ (readString maxLength t).value, AllHeld t v := by
  have hnil : AllHeld t [] := fun _ hc => absurd hc List.not_mem_nil
  cases t with
  | nil => exact fun v hv => by cases hv
  | cons q body =>
    simp only [readString]
    split
    · exact fun v hv => by cases hv
    · split
      · exact readBody_held rfl hnil (List.suffix_cons q body)
      · exact readBody_held rfl hnil (List.suffix_cons q body)

theorem unquote_held {t v : Text} (h : unquote t = some v) : AllHeld t v := by
  simp only [unquote] at h
  split at h
  · exact (readString_held none t.trim v h).mono (trim_piece t)
  · cases h

/-! ## Values -/

theorem joinStrings_held {limits : Limits} {value rest u : Text} (hvalue : AllHeld u value) (hrest : rest <:+ u) :
    ∀ v ∈ (joinStrings limits value rest).value, AllHeld u v := by
  fun_induction joinStrings limits value rest with
  | case1 | case7 =>
    intro v hv
    rwa [← Option.some.inj hv]
  | case4 value rest c r h _ q body h' hq part next h'' _ ih =>
    have hpart := readString_held (some limits.maxValueLength) (q :: body)
    have hnext := readString_suffix (some limits.maxValueLength) (q :: body)
    rw [h''] at hpart hnext
    have hadded := (added_suffix h h').trans hrest
    exact ih (hvalue.append ((hpart part rfl).mono hadded.isInfix)) (hnext.trans hadded)
  | _ => exact fun v hv => by cases hv

theorem readValue_held (limits : Limits) (t : Text) : ∀ v ∈ (readValue limits t).value, AllHeld t v := by
  have hheld := readString_held (some limits.maxValueLength) t
  have hrest := readString_suffix (some limits.maxValueLength) t
  unfold readValue
  split
  · exact fun v hv => by cases hv
  · rename_i value rest e
    rw [e] at hheld hrest
    exact joinStrings_held (hheld value rfl) hrest

/-! ## Literals -/

/-- Every text that is emitted comes from the source. -/
theorem scan_held (limits : Limits) (base : Text) (depth : Nat) {t u : Text} (h : t <:+: u) :
    ∀ e ∈ (scan limits base depth t).filterMap Emission.entry?, AllHeld u e.2 := by
  fun_induction scan limits base depth t with
  | case1 | case3 => exact fun e he => absurd he List.not_mem_nil
  | case2 base depth t rest hf ih =>
    have hrest := front_suffix limits t
    rw [hf] at hrest
    exact ih (hrest.isInfix.trans h)
  | case4 base depth t name c r hf key _ close hclose ih₂ ih₁ =>
    have hvalue := front_suffix limits t
    rw [hf] at hvalue
    have hr : r <:+: u := (suffix_of_cons hvalue).isInfix.trans h
    have hc := (closingBrace_suffix hclose).1.isInfix.trans hr
    rw [List.filterMap_append]
    refine List.forall_mem_append.2 ⟨?_, ih₁ ((List.tail_suffix close).isInfix.trans hc)⟩
    split
    · exact fun e he => absurd he List.not_mem_nil
    · exact ih₂ ((List.take_prefix _ r).isInfix.trans hr)
  | case5 base depth t name c r hf key _ hq reading ih =>
    have hvalue := front_suffix limits t
    rw [hf] at hvalue
    have hr : c :: r <:+: u := hvalue.isInfix.trans h
    have hrest := (skipValue_suffix [] limits.maxValueLength _).trans (readValue_suffix limits (c :: r))
    rw [List.filterMap_append]
    refine List.forall_mem_append.2 ⟨fun e he => ?_, ih (hrest.isInfix.trans hr)⟩
    cases hv : reading.value with
    | none => simp [hv] at he
    | some v =>
      obtain rfl : e = (key, v) := by simpa [hv, Emission.entry?] using he
      exact (readValue_held limits (c :: r) v hv).mono hr
  | case6 base depth t name c r hf _ _ ih =>
    have hvalue := front_suffix limits t
    rw [hf] at hvalue
    exact ih (((skipValue_suffix _ _ _).trans hvalue).isInfix.trans h)

theorem emissions_held (limits : Limits) (base t : Text) :
    ∀ e ∈ (emissions limits base t).filterMap Emission.entry?, AllHeld t e.2 := by
  unfold emissions
  split
  · exact fun e he => absurd he List.not_mem_nil
  · rename_i b hb
    refine scan_held limits base 0 (List.IsInfix.trans ?_ (objectLiteral_suffix hb).isInfix)
    exact (List.drop_suffix _ _).isInfix.trans (List.take_prefix _ _).isInfix

/-- Every text of a table comes from the literal it was flattened from. -/
theorem flatten_held {limits : Limits} {base t : Text} {f : Flattened}
    (h : (flatten limits base t).run.value = .ok f) : ∀ e ∈ f.entries.entries, AllHeld t e.2 := by
  rw [flatten_ok h]
  refine Table.forall_value_insertAll (fun _ he => absurd he List.not_mem_nil) fun e he => ?_
  exact emissions_held limits base t e (List.mem_filter.1 he).1

end MessageCatalog.Literal
