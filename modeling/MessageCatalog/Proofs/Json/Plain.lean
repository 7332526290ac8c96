/-
  MessageCatalog.Proofs.Json.Plain — values that JSON spells as they are.

  Texts, integers, truth values and null, in lists and in mappings with text keys: nothing
  is respelled and no member gives way to another. What is written for such a value has
  only the Unicode characters of its texts besides ASCII, and no carriage return, which is
  escaped, so a file keeps it.

  Proved: a plain value is written if the host spells its integers and has room for the way it
  is nested (`obstacle_plain`), and is then read as it was written (`read_write_plain`), also
  with a line end behind it (`read_line_plain`); what is written for one of Unicode texts can
  be kept in a file (`isKept_write`), and for one of other texts it cannot
  (`isScalar_of_writeAt`).
-/

import MessageCatalog.Proofs.Data
import MessageCatalog.Proofs.File
import MessageCatalog.Proofs.Json.RoundTrip

namespace MessageCatalog

/-! ## Plain values -/

namespace Data

mutual

/-- Texts, integers, truth values and null, in lists and in mappings. -/
def isPlain : Data → Bool
  | .float _ | .tuple _ => false
  | .list xs => arePlain xs
  | .mapping ps => havePlain ps
  | _ => true

def arePlain : List Data → Bool
  | [] => true
  | x :: xs => isPlain x && arePlain xs

/-- Keys are texts, and no two of them are the same. -/
def havePlain : List (Data × Data) → Bool
  | [] => true
  | (k, v) :: ps => k.isText && !ps.any (fun q => k == q.1) && isPlain v && havePlain ps

end

mutual

/-- Every text is one of Unicode characters, keys included. -/
def isScalar : Data → Bool
  | .text t => t.isScalar
  | .list xs | .tuple xs => areScalar xs
  | .mapping ps => haveScalar ps
  | _ => true

def areScalar : List Data → Bool
  | [] => true
  | x :: xs => isScalar x && areScalar xs

def haveScalar : List (Data × Data) → Bool
  | [] => true
  | (k, v) :: ps => isScalar k && isScalar v && haveScalar ps

end

mutual

/-- Every integer is one that the host spells. -/
def isSpelled (host : Host) : Data → Bool
  | .int n => host.spells n
  | .list xs | .tuple xs => areSpelled host xs
  | .mapping ps => haveSpelled host ps
  | _ => true

def areSpelled (host : Host) : List Data → Bool
  | [] => true
  | x :: xs => isSpelled host x && areSpelled host xs

def haveSpelled (host : Host) : List (Data × Data) → Bool
  | [] => true
  | (_, v) :: ps => isSpelled host v && haveSpelled host ps

end

mutual

/-- How deep lists and mappings are nested, empty ones included. -/
def depth : Data → Nat
  | .list xs | .tuple xs => depthOfItems xs + 1
  | .mapping ps => depthOfPairs ps + 1
  | _ => 0

def depthOfItems : List Data → Nat
  | [] => 0
  | x :: xs => max (depth x) (depthOfItems xs)

def depthOfPairs : List (Data × Data) → Nat
  | [] => 0
  | (_, v) :: ps => max (depth v) (depthOfPairs ps)

end

theorem haveSpelled_iff {host : Host} {ps : List (Data × Data)} :
    haveSpelled host ps = true ↔ ∀ p ∈ ps, p.2.isSpelled host = true := by
  induction ps with
  | nil => simp [haveSpelled]
  | cons p ps ih => rw [haveSpelled, Bool.and_eq_true, ih, List.forall_mem_cons]

theorem depthOfPairs_le {ps : List (Data × Data)} {most : Nat} :
    depthOfPairs ps ≤ most ↔ ∀ p ∈ ps, p.2.depth ≤ most := by
  induction ps with
  | nil => simp [depthOfPairs]
  | cons p ps ih => rw [depthOfPairs, Nat.max_le, ih, List.forall_mem_cons]

theorem havePlain_cons {k v : Data} {ps : List (Data × Data)} (h : havePlain ((k, v) :: ps) = true) :
    (∃ t, k = .text t) ∧ (∀ q ∈ ps, (k == q.1) = false) ∧ isPlain v = true ∧ havePlain ps = true := by
  simp only [havePlain, Bool.and_eq_true, Bool.not_eq_true', List.any_eq_false] at h
  obtain ⟨⟨⟨hk, hfresh⟩, hv⟩, hps⟩ := h
  refine ⟨?_, fun q hq => Bool.eq_false_iff.2 (hfresh q hq), hv, hps⟩
  cases k with
  | text t => exact ⟨t, rfl⟩
  | _ => cases hk

theorem keys_distinct {ps : List (Data × Data)} (h : havePlain ps = true) :
    (ps.map (·.1)).Pairwise fun a b => (a == b) = false := by
  induction ps with
  | nil => exact .nil
  | cons p ps ih =>
    obtain ⟨-, hfresh, -, hps⟩ := havePlain_cons h
    refine List.pairwise_cons.2 ⟨fun b hb => ?_, ih hps⟩
    obtain ⟨q, hq, rfl⟩ := List.mem_map.1 hb
    exact hfresh q hq

theorem havePlain_entries {β : Type} {f : β → Data} (t : Table Text β) (hf : ∀ e ∈ t.entries, isPlain (f e.2) = true) :
    havePlain (t.entries.map fun e => (.text e.1, f e.2)) = true := by
  obtain ⟨es, hes⟩ := t
  replace hf : ∀ e ∈ es, isPlain (f e.2) = true := hf
  show havePlain (es.map fun e => (.text e.1, f e.2)) = true
  induction es with
  | nil => rfl
  | cons e es ih =>
    obtain ⟨hfirst, hrest⟩ := List.pairwise_cons.1 hes
    have hfresh : (es.map fun e => (Data.text e.1, f e.2)).any (fun q => Data.text e.1 == q.1) = false := by
      rw [List.any_map]
      refine List.any_eq_false.2 fun x hx => ?_
      exact Bool.eq_false_iff.1 (hfirst x.1 (List.mem_map_of_mem hx))
    rw [List.map_cons, havePlain, hfresh, hf e (by simp), ih hrest fun x hx => hf x (List.mem_cons_of_mem e hx)]
    rfl

theorem haveScalar_iff {ps : List (Data × Data)} :
    haveScalar ps = true ↔ ∀ p ∈ ps, isScalar p.1 = true ∧ isScalar p.2 = true := by
  induction ps with
  | nil => simp [haveScalar]
  | cons p ps ih => rw [haveScalar, Bool.and_eq_true, Bool.and_eq_true, ih, List.forall_mem_cons]

theorem haveScalar_entries {β : Type} {f : β → Data} {es : List (Text × β)} :
    haveScalar (es.map fun e => (.text e.1, f e.2)) = true ↔
      ∀ e ∈ es, e.1.isScalar = true ∧ isScalar (f e.2) = true := by
  rw [haveScalar_iff, List.forall_mem_map]
  rfl

def keyed (t : Table Text Data) : List (Data × Data) := t.entries.map fun e => (.text e.1, e.2)

theorem exists_table {ps : List (Data × Data)} (h : havePlain ps = true) : ∃ t : Table Text Data, ps = keyed t := by
  induction ps with
  | nil => exact ⟨.empty, rfl⟩
  | cons p ps ih =>
    obtain ⟨k, v⟩ := p
    obtain ⟨⟨t, rfl⟩, hfresh, -, hps⟩ := havePlain_cons h
    obtain ⟨u, rfl⟩ := ih hps
    have hdistinct : (((t, v) :: u.entries).map (·.1)).Pairwise fun a b => (a == b) = false := by
      refine List.pairwise_cons.2 ⟨fun b hb => ?_, u.distinct⟩
      obtain ⟨e, he, rfl⟩ := List.mem_map.1 hb
      exact hfresh (.text e.1, e.2) (List.mem_map_of_mem he)
    exact ⟨⟨(t, v) :: u.entries, hdistinct⟩, rfl⟩

/-- Under a text key a plain mapping has the one value that is paired with it. -/
theorem get?_plain {ps : List (Data × Data)} (h : havePlain ps = true) (k : Text) (v : Data) :
    get? ps (.text k) = some v ↔ (.text k, v) ∈ ps := by
  obtain ⟨t, rfl⟩ := exists_table h
  have hget : get? (keyed t) (.text k) = t.get? k := (get?_text t id k).trans (by rw [Option.map_id, id])
  rw [hget]
  constructor
  · exact fun hv => List.mem_map.2 ⟨(k, v), Table.mem_of_get? hv, rfl⟩
  · intro hv
    obtain ⟨e, he, hkv⟩ := List.mem_map.1 hv
    cases hkv
    exact Table.get?_of_mem he

end Data

namespace Json

open Data (isPlain arePlain havePlain isScalar areScalar haveScalar)

/-! ## Reading -/

mutual

/-- A plain value has no floating-point number, and is spelled as it is. -/
theorem spelled_value (d : Data) (h : isPlain d = true) : isDiscrete d = true ∧ again d = d := by
  match d with
  | .null | .bool _ | .int _ | .text _ => exact ⟨rfl, rfl⟩
  | .float _ | .tuple _ => cases h
  | .list xs =>
    obtain ⟨hdiscrete, hagain⟩ := spelled_items xs h
    exact ⟨hdiscrete, by rw [again, hagain]⟩
  | .mapping ps =>
    obtain ⟨hdiscrete, hagain⟩ := spelled_pairs ps h
    refine ⟨hdiscrete, ?_⟩
    rw [again, hagain, Data.ofPairs, Table.entries_ofList (Data.keys_distinct h)]

theorem spelled_items (xs : List Data) (h : arePlain xs = true) : areDiscrete xs = true ∧ itemsAgain xs = xs := by
  match xs with
  | [] => exact ⟨rfl, rfl⟩
  | x :: xs =>
    rw [arePlain, Bool.and_eq_true] at h
    obtain ⟨hdiscrete, hagain⟩ := spelled_value x h.1
    obtain ⟨hdiscretes, hagains⟩ := spelled_items xs h.2
    refine ⟨?_, ?_⟩
    · rw [areDiscrete, hdiscrete, hdiscretes, Bool.and_true]
    · rw [itemsAgain, hagain, hagains]

theorem spelled_pairs (ps : List (Data × Data)) (h : havePlain ps = true) :
    haveDiscrete ps = true ∧ pairsAgain ps = ps := by
  match ps with
  | [] => exact ⟨rfl, rfl⟩
  | (k, v) :: ps =>
    obtain ⟨⟨t, rfl⟩, -, hv, hps⟩ := Data.havePlain_cons h
    obtain ⟨hdiscrete, hagain⟩ := spelled_value v hv
    obtain ⟨hdiscretes, hagains⟩ := spelled_pairs ps hps
    refine ⟨?_, ?_⟩
    · rw [haveDiscrete, hdiscrete, hdiscretes, Bool.and_true]
    · rw [pairsAgain, hagain, hagains]
      rfl

end

variable {host : Host} {d : Data}

theorem read_write_plain (h : isPlain d = true) (hd : obstacle? host 0 d = none) : readOn host (write d) = .ok d := by
  obtain ⟨hdiscrete, hagain⟩ := spelled_value d h
  rw [read_write hdiscrete hd, hagain]

theorem read_line_plain (h : isPlain d = true) (hd : obstacle? host 0 d = none) :
    readOn host (write d ++ "\n") = .ok d := by
  obtain ⟨hdiscrete, hagain⟩ := spelled_value d h
  have hline : Closed (write d ++ "\n") (tokensOf d ++ []) :=
    (lexes_write d hdiscrete 0).append_closed (closed_blanks (t := "\n") (by decide)) rfl
  rw [List.append_nil] at hline
  rw [readOn_tokens hd hline.lexes.tokens, hagain]

/-! ## What a host has room for -/

theorem add_max_le {level m n most : Nat} : level + max m n ≤ most ↔ level + m ≤ most ∧ level + n ≤ most := by omega

mutual

/-- Nothing stands in the way of a plain value whose integers the host spells and that is
not nested too deep. -/
theorem obstacle_plain (d : Data) (h : isPlain d = true) {level : Nat} (hlevel : level ≤ host.room + 1) :
    obstacle? host level d = none ↔ d.isSpelled host = true ∧ level + d.depth ≤ host.room + 1 := by
  match d with
  | .null | .bool _ | .text _ => simp [obstacle?, Data.isSpelled, Data.depth, hlevel]
  | .float _ | .tuple _ => cases h
  | .int n => simp [obstacle?, Data.isSpelled, Data.depth, hlevel]
  | .list xs =>
    by_cases hroom : level ≤ host.room
    · rw [obstacle?, if_pos hroom, obstacleOfItems_plain xs h (by omega), Data.isSpelled, Data.depth]
      exact and_congr_right fun _ => by omega
    · rw [obstacle?, if_neg hroom, Data.depth]
      exact ⟨nofun, fun ⟨_, hdepth⟩ => by omega⟩
  | .mapping ps =>
    by_cases hroom : level ≤ host.room
    · rw [obstacle?, if_pos hroom, obstacleOfPairs_plain ps h (by omega), Data.isSpelled, Data.depth]
      exact and_congr_right fun _ => by omega
    · rw [obstacle?, if_neg hroom, Data.depth]
      exact ⟨nofun, fun ⟨_, hdepth⟩ => by omega⟩

theorem obstacleOfItems_plain (xs : List Data) (h : arePlain xs = true) {level : Nat}
    (hlevel : level ≤ host.room + 1) :
    obstacleOfItems? host level xs = none ↔
      Data.areSpelled host xs = true ∧ level + Data.depthOfItems xs ≤ host.room + 1 := by
  match xs with
  | [] => simp [obstacleOfItems?, Data.areSpelled, Data.depthOfItems, hlevel]
  | x :: xs =>
    rw [arePlain, Bool.and_eq_true] at h
    rw [obstacleOfItems_cons, obstacle_plain x h.1 hlevel, obstacleOfItems_plain xs h.2 hlevel, Data.areSpelled,
      Data.depthOfItems, Bool.and_eq_true, add_max_le, and_and_and_comm]

theorem obstacleOfPairs_plain (ps : List (Data × Data)) (h : havePlain ps = true) {level : Nat}
    (hlevel : level ≤ host.room + 1) :
    obstacleOfPairs? host level ps = none ↔
      Data.haveSpelled host ps = true ∧ level + Data.depthOfPairs ps ≤ host.room + 1 := by
  match ps with
  | [] => simp [obstacleOfPairs?, Data.haveSpelled, Data.depthOfPairs, hlevel]
  | (k, v) :: ps =>
    obtain ⟨⟨t, rfl⟩, -, hv, hps⟩ := Data.havePlain_cons h
    have hkey : keyObstacle? host (.text t) = none := rfl
    rw [obstacleOfPairs_cons, and_iff_right hkey, obstacle_plain v hv hlevel, obstacleOfPairs_plain ps hps hlevel,
      Data.haveSpelled, Data.depthOfPairs, Bool.and_eq_true, add_max_le, and_and_and_comm]

end

/-! ## In a file -/

open File (isKept)

theorem isKept_ofInt (n : Int) : (Text.ofInt n).all isKept = true := by
  have hdigit : ∀ c : Nat, Text.isDigit c = true → isKept c = true := by
    intro c hc
    have hall : ∀ c < 58, Text.isDigit c = true → isKept c = true := by decide +kernel
    have hlt : c < 58 := by
      rw [Text.isDigit, Bool.and_eq_true, decide_eq_true_eq, decide_eq_true_eq] at hc
      exact Nat.lt_succ_of_le hc.2
    exact hall c hlt hc
  have hnat : ∀ n : Nat, (Text.ofNat n).all isKept = true := fun n =>
    List.all_eq_true.2 fun c hc => hdigit c (isDigit_ofNat n c hc)
  cases n with
  | ofNat n => exact hnat n
  | negSucc n =>
    show (isKept '-' && (Text.ofNat (n + 1)).all isKept) = true
    rw [hnat (n + 1)]
    rfl

/-- A character that is neither a control character nor a mark is not escaped. -/
theorem escape_self {c : Nat} (hlow : ¬ c < 32) (hmark : ¬ (c == '"' || c == '\\') = true) : escape c = [c] := by
  have hne : ∀ d < 32, ¬ c = d := by omega
  rw [escape, if_neg hmark, if_neg (mt beq_iff_eq.1 (hne _ (by decide))),
    if_neg (mt beq_iff_eq.1 (hne _ (by decide))), if_neg (mt beq_iff_eq.1 (hne _ (by decide))),
    if_neg (hne _ (by decide)), if_neg (hne _ (by decide)), if_neg hlow]

theorem isKept_escape {c : Nat} (hc : Text.Utf8.isUnicode c = true) : (escape c).all isKept = true := by
  by_cases hlow : c < 32
  · have hall : ∀ c < 32, (escape c).all isKept = true := by decide +kernel
    exact hall c hlow
  have hkept : isKept c = true := by
    have hne : ¬ c = 13 := by omega
    rw [isKept, hc, Bool.true_and]
    exact bne_iff_ne.2 hne
  by_cases hquote : (c == '"' || c == '\\') = true
  · rw [escape, if_pos hquote, List.all_cons, List.all_cons, hkept]
    rfl
  · rw [escape_self hlow hquote, List.all_cons, hkept]
    rfl

theorem isKept_quote {t : Text} (h : t.isScalar = true) : (quote t).all isKept = true := by
  have hbody : (t.flatMap escape).all isKept = true := by
    rw [List.all_flatMap]
    exact List.all_eq_true.2 fun c hc => isKept_escape (List.all_eq_true.1 h c hc)
  have hmark : ("\"" : Text).all isKept = true := rfl
  rw [quote, List.all_append, List.all_append, hbody, hmark]
  rfl

theorem isKept_newLine (level : Nat) : (newLine level).all isKept = true := by
  have hblanks : (List.replicate (2 * level) (' ' : Code)).all isKept = true := by
    refine List.all_eq_true.2 fun c hc => ?_
    rw [List.eq_of_mem_replicate hc]
    rfl
  have hend : ("\n" : Text).all isKept = true := rfl
  rw [newLine, List.all_append, hblanks, hend]
  rfl

theorem isKept_member {k : Text} (hk : k.isScalar = true) {t : Text} (ht : t.all isKept = true) :
    (quote k ++ ": " ++ t).all isKept = true := by
  have hcolon : (": " : Text).all isKept = true := rfl
  rw [List.all_append, List.all_append, isKept_quote hk, hcolon, ht]
  rfl

theorem isKept_separated {t u : Text} (ht : t.all isKept = true) (hu : u.all isKept = true) (level : Nat) :
    (t ++ "," ++ newLine level ++ u).all isKept = true := by
  have hcomma : ("," : Text).all isKept = true := rfl
  rw [List.all_append, List.all_append, List.all_append, ht, hcomma, isKept_newLine, hu]
  rfl

theorem isKept_bracketed {o c t : Text} (ho : o.all isKept = true) (hc : c.all isKept = true)
    (ht : t.all isKept = true) (level : Nat) :
    (o ++ newLine (level + 1) ++ t ++ newLine level ++ c).all isKept = true := by
  rw [List.all_append, List.all_append, List.all_append, List.all_append, ho, hc, ht, isKept_newLine,
    isKept_newLine]
  rfl

mutual

theorem isKept_writeAt (d : Data) (hp : isPlain d = true) (hs : isScalar d = true) (level : Nat) :
    (writeAt level d).all isKept = true := by
  match d with
  | .null | .bool true | .bool false | .list [] | .mapping [] => rfl
  | .int n => exact isKept_ofInt n
  | .float _ | .tuple _ => cases hp
  | .text t => exact isKept_quote hs
  | .list (x :: xs) => exact isKept_bracketed rfl rfl (isKept_writeItems (x :: xs) hp hs (level + 1)) level
  | .mapping (p :: ps) => exact isKept_bracketed rfl rfl (isKept_writePairs (p :: ps) hp hs (level + 1)) level

theorem isKept_writeItems (xs : List Data) (hp : arePlain xs = true) (hs : areScalar xs = true) (level : Nat) :
    (writeItems level xs).all isKept = true := by
  match xs with
  | [] => rfl
  | [x] =>
    simp only [arePlain, areScalar, Bool.and_true] at hp hs
    exact isKept_writeAt x hp hs level
  | x :: y :: xs =>
    rw [arePlain, Bool.and_eq_true] at hp
    rw [areScalar, Bool.and_eq_true] at hs
    exact isKept_separated (isKept_writeAt x hp.1 hs.1 level) (isKept_writeItems (y :: xs) hp.2 hs.2 level) level

theorem isKept_writePairs (ps : List (Data × Data)) (hp : havePlain ps = true) (hs : haveScalar ps = true)
    (level : Nat) : (writePairs level ps).all isKept = true := by
  match ps with
  | [] => rfl
  | [(k, v)] =>
    obtain ⟨⟨t, rfl⟩, -, hv, -⟩ := Data.havePlain_cons hp
    simp only [haveScalar, Bool.and_true, Bool.and_eq_true] at hs
    exact isKept_member hs.1 (isKept_writeAt v hv hs.2 level)
  | (k, v) :: q :: ps =>
    obtain ⟨⟨t, rfl⟩, -, hv, hps⟩ := Data.havePlain_cons hp
    rw [haveScalar, Bool.and_eq_true, Bool.and_eq_true] at hs
    obtain ⟨⟨hk, hvs⟩, hpss⟩ := hs
    exact isKept_separated (isKept_member hk (isKept_writeAt v hv hvs level))
      (isKept_writePairs (q :: ps) hps hpss level) level

end

theorem isKept_write {d : Data} (hp : isPlain d = true) (hs : isScalar d = true) :
    (write d ++ "\n").all isKept = true := by
  have hend : ("\n" : Text).all isKept = true := rfl
  rw [List.all_append, write, isKept_writeAt d hp hs 0, hend]
  rfl

/-! ## What the texts in a file were -/

open Text.Utf8 (isUnicode)

theorem isUnicode_of_escape {c : Nat} (h : (escape c).isScalar = true) : isUnicode c = true := by
  by_cases hlow : c < 128
  · have hall : ∀ c < 128, isUnicode c = true := by decide +kernel
    exact hall c hlow
  · have hmark : ¬ (c == '"' || c == '\\') = true := by
      have hne : ∀ d < 128, (c == d) = false := fun d hd => beq_eq_false_iff_ne.2 (by omega)
      rw [hne _ (by decide), hne _ (by decide)]
      decide
    rw [escape_self (by omega) hmark] at h
    exact List.all_eq_true.1 h c List.mem_cons_self

theorem isScalar_of_quote {t : Text} (h : (quote t).isScalar = true) : t.isScalar = true := by
  have hbody : (t.flatMap escape).all isUnicode = true := by
    rw [quote, Text.isScalar, List.all_append, List.all_append, Bool.and_eq_true, Bool.and_eq_true] at h
    exact h.1.2
  rw [List.all_flatMap] at hbody
  exact List.all_eq_true.2 fun c hc => isUnicode_of_escape (List.all_eq_true.1 hbody c hc)

theorem isScalar_of_bracketed {o c t : Text} {level : Nat}
    (h : (o ++ newLine (level + 1) ++ t ++ newLine level ++ c).isScalar = true) : t.isScalar = true := by
  simp only [Text.isScalar, List.all_append, Bool.and_eq_true] at h
  exact h.1.1.2

theorem isScalar_of_separated {t u : Text} {level : Nat} (h : (t ++ "," ++ newLine level ++ u).isScalar = true) :
    t.isScalar = true ∧ u.isScalar = true := by
  simp only [Text.isScalar, List.all_append, Bool.and_eq_true] at h
  exact ⟨h.1.1.1, h.2⟩

theorem isScalar_of_member {k t : Text} (h : (quote k ++ ": " ++ t).isScalar = true) :
    k.isScalar = true ∧ t.isScalar = true := by
  rw [Text.isScalar, List.all_append, List.all_append, Bool.and_eq_true, Bool.and_eq_true] at h
  exact ⟨isScalar_of_quote h.1.1, h.2⟩

mutual

/-- A text that is not of Unicode characters shows in whatever it is written in. -/
theorem isScalar_of_writeAt (d : Data) (hp : isPlain d = true) {level : Nat} (h : (writeAt level d).isScalar = true) :
    isScalar d = true := by
  match d with
  | .null | .bool _ | .int _ | .list [] | .mapping [] => rfl
  | .float _ | .tuple _ => cases hp
  | .text t => exact isScalar_of_quote h
  | .list (x :: xs) => exact isScalar_of_writeItems (x :: xs) hp (isScalar_of_bracketed h)
  | .mapping (p :: ps) => exact isScalar_of_writePairs (p :: ps) hp (isScalar_of_bracketed h)

theorem isScalar_of_writeItems (xs : List Data) (hp : arePlain xs = true) {level : Nat}
    (h : (writeItems level xs).isScalar = true) : areScalar xs = true := by
  match xs with
  | [] => rfl
  | [x] =>
    rw [arePlain, Bool.and_eq_true] at hp
    rw [areScalar, isScalar_of_writeAt x hp.1 h]
    rfl
  | x :: y :: xs =>
    rw [arePlain, Bool.and_eq_true] at hp
    obtain ⟨hx, hxs⟩ := isScalar_of_separated h
    rw [areScalar, isScalar_of_writeAt x hp.1 hx, isScalar_of_writeItems (y :: xs) hp.2 hxs]
    rfl

theorem isScalar_of_writePairs (ps : List (Data × Data)) (hp : havePlain ps = true) {level : Nat}
    (h : (writePairs level ps).isScalar = true) : haveScalar ps = true := by
  match ps with
  | [] => rfl
  | [(k, v)] =>
    obtain ⟨⟨t, rfl⟩, -, hv, -⟩ := Data.havePlain_cons hp
    obtain ⟨ht, hvalue⟩ : t.isScalar = true ∧ _ := isScalar_of_member h
    rw [haveScalar, isScalar, ht, isScalar_of_writeAt v hv hvalue]
    rfl
  | (k, v) :: q :: ps =>
    obtain ⟨⟨t, rfl⟩, -, hv, hps⟩ := Data.havePlain_cons hp
    obtain ⟨hmember, hrest⟩ := isScalar_of_separated h
    obtain ⟨ht, hvalue⟩ : t.isScalar = true ∧ _ := isScalar_of_member hmember
    rw [haveScalar, isScalar, ht, isScalar_of_writeAt v hv hvalue, isScalar_of_writePairs (q :: ps) hps hrest]
    rfl

end

end Json

end MessageCatalog
