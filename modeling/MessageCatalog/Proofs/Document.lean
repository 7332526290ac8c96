/-
  MessageCatalog.Proofs.Document — documents that keep their keys.

  A plain value that fits the host is read as it was written, so its keys are counted
  twice on the same value; counting and loading go by the same tables.

  Proved:
  - `verifyRoundTrip_plain`: a plain value that fits keeps its keys. So does a flat table of
    texts (`verifyRoundTrip_texts`), a key that wraps other tables included: it is no table
    here.
  - `load_saved`: a plain document of Unicode texts that fits is saved, and loaded as the
    tables it has; no other is saved (`save_iff`).
  - `sourceTables_plain`: these are the mappings of the source language, in the order of
    the document; their entries are the keys that are counted (`keyCount_grouped`).
-/

import Mathlib.Algebra.GroupWithZero.Nat
import MessageCatalog.Document
import MessageCatalog.Proofs.Attempt
import MessageCatalog.Proofs.Json.Plain

namespace MessageCatalog.Document

open Data (isPlain havePlain)

/-! ## Plain documents -/

/-- The host spells the integers of a value, and has room for the way it is nested. -/
structure Fits (host : Host) (d : Data) : Prop where
  spelled : d.isSpelled host = true
  depth : d.depth ≤ host.room + 1

section

variable {host : Host} {d : Data} {ps : Pairs} {n : Nat}

theorem obstacle_none (h : isPlain d = true) : Json.obstacle? host 0 d = none ↔ Fits host d := by
  rw [Json.obstacle_plain d h (Nat.zero_le _), Nat.zero_add]
  exact ⟨fun ⟨hs, hd⟩ => ⟨hs, hd⟩, fun ⟨hs, hd⟩ => ⟨hs, hd⟩⟩

theorem fits_mapping (hroom : n ≤ host.room) (hspelled : ∀ p ∈ ps, p.2.isSpelled host = true)
    (hdepth : ∀ p ∈ ps, p.2.depth ≤ n) : Fits host (.mapping ps) := by
  have hdepths := Data.depthOfPairs_le.2 hdepth
  refine ⟨Data.haveSpelled_iff.2 hspelled, ?_⟩
  rw [Data.depth]
  omega

theorem write_eq (h : Json.obstacle? host 0 d = none) : write host d = .ok (Json.write d) := by
  rw [write, Json.writeOn, h]
  rfl

theorem reread_plain (h : isPlain d = true) (hfits : Fits host d) : reread host d = .ok d := by
  have hnone := (obstacle_none h).2 hfits
  rw [reread, write_eq hnone]
  show read host (Json.write d) = .ok d
  rw [read, Json.read_write_plain h hnone]
  rfl

theorem verifyRoundTrip_reread {again : Data} {m : Nat} (hn : keyCount d = .ok n) (hread : reread host d = .ok again)
    (hm : keyCount again = .ok m) (artifact : Option Text) :
    verifyRoundTrip artifact d host = if m = n then .ok n else .error (.countMismatch artifact n m) := by
  have hkept : (reread host d).mapError (roundTripFault artifact n) = .ok again := by
    rw [hread]
    rfl
  simp only [verifyRoundTrip, bind, Except.bind, hn, hkept, hm]

theorem verifyRoundTrip_obstacle {o : Json.Obstacle} (hn : keyCount d = .ok n) (ho : Json.obstacle? host 0 d = some o)
    (artifact : Option Text) :
    verifyRoundTrip artifact d host = .error (roundTripFault artifact n (.ofObstacle host o)) := by
  have hrefused : (reread host d).mapError (roundTripFault artifact n) =
      .error (roundTripFault artifact n (.ofObstacle host o)) := by
    rw [reread, write, Json.writeOn, ho]
    rfl
  simp only [verifyRoundTrip, bind, Except.bind, hn, hrefused]

/-- A plain value that can be counted keeps its keys. -/
theorem verifyRoundTrip_plain (h : isPlain d = true) (hfits : Fits host d) (hn : keyCount d = .ok n)
    (artifact : Option Text) : verifyRoundTrip artifact d host = .ok n := by
  rw [verifyRoundTrip_reread hn (reread_plain h hfits) hn, if_pos rfl]

theorem text_plain (h : isPlain d = true) (hfits : Fits host d) : text d host = .ok (Json.write d ++ "\n") := by
  rw [text, write_eq ((obstacle_none h).2 hfits)]
  rfl

theorem load_saved (hp : isPlain (.mapping ps) = true) (hs : Data.isScalar (.mapping ps) = true)
    (hfits : Fits host (.mapping ps)) (hn : keyCount (.mapping ps) = .ok n) (path path' group : Text) :
    ∃ file, (save path (.mapping ps) host).run.value = .ok file ∧
      load path' group (some file) host = .ok (groups group ps) := by
  obtain ⟨file, hfile, hread⟩ := File.readText_ofText (Json.isKept_write hp hs)
  refine ⟨file, ?_, ?_⟩
  · have hwritten : (Except.ok file : Except Cause File).mapError Fault.plain = .ok file := rfl
    simp only [save, Attempt.value_bind, Attempt.value_ofExcept, text_plain hp hfits, hfile, hwritten, hn,
      Attempt.value_log, Attempt.value_pure, Except.bind]
  · have hkept : (File.readText (some file)).mapError Fault.plain = .ok (Json.write (.mapping ps) ++ "\n") := by
      rw [hread]
      rfl
    have htree : (read host (Json.write (.mapping ps) ++ "\n")).mapError Trouble.fault = .ok (.mapping ps) := by
      rw [read, Json.read_line_plain hp ((obstacle_none hp).2 hfits)]
      rfl
    simp only [load, hkept, htree, bind, Except.bind]

theorem text_of_save {path : Text} {file : File} (h : (save path d host).run.value = .ok file) :
    ∃ t, text d host = .ok t ∧ File.ofText t = .ok file := by
  cases htext : text d host with
  | error fault =>
    simp only [save, Attempt.value_bind, Attempt.value_ofExcept, htext, Except.bind] at h
    cases h
  | ok t =>
    refine ⟨t, rfl, ?_⟩
    cases hfile : File.ofText t with
    | error cause =>
      have hrefused : (Except.error cause : Except Cause File).mapError Fault.plain = .error (.plain cause) := rfl
      simp only [save, Attempt.value_bind, Attempt.value_ofExcept, htext, hfile, hrefused, Except.bind] at h
      cases h
    | ok written =>
      have hwritten : (Except.ok written : Except Cause File).mapError Fault.plain = .ok written := rfl
      cases hcount : keyCount d with
      | error fault =>
        simp only [save, Attempt.value_bind, Attempt.value_ofExcept, htext, hfile, hwritten, hcount, Except.bind] at h
        cases h
      | ok n =>
        simp only [save, Attempt.value_bind, Attempt.value_ofExcept, htext, hfile, hwritten, hcount, Attempt.value_log,
          Attempt.value_pure, Except.bind] at h
        rw [Except.ok.inj h]

theorem fits_of_text {t : Text} (h : isPlain d = true) (ht : text d host = .ok t) :
    Fits host d ∧ t = Json.write d ++ "\n" := by
  cases hobstacle : Json.obstacle? host 0 d with
  | none =>
    have hfits := (obstacle_none h).1 hobstacle
    rw [text_plain h hfits] at ht
    exact ⟨hfits, (Except.ok.inj ht).symm⟩
  | some o =>
    rw [text, write, Json.writeOn, hobstacle] at ht
    cases ht

/-- A plain document is saved if and only if it fits and its texts are all of Unicode characters. -/
theorem save_iff (hp : isPlain (.mapping ps) = true) (hn : keyCount (.mapping ps) = .ok n) (path : Text) :
    (∃ file, (save path (.mapping ps) host).run.value = .ok file) ↔
      Fits host (.mapping ps) ∧ Data.isScalar (.mapping ps) = true := by
  constructor
  · rintro ⟨file, hfile⟩
    obtain ⟨t, htext, hencoded⟩ := text_of_save hfile
    obtain ⟨hfits, rfl⟩ := fits_of_text hp htext
    have hscalar : (Json.write (.mapping ps) ++ "\n").isScalar = true := File.isScalar_of_ofText hencoded
    rw [Text.isScalar, List.all_append, Bool.and_eq_true] at hscalar
    exact ⟨hfits, Json.isScalar_of_writeAt _ hp hscalar.1⟩
  · rintro ⟨hfits, hs⟩
    obtain ⟨file, hfile, -⟩ := load_saved hp hs hfits hn path path wrapper
    exact ⟨file, hfile⟩

end

/-! ## Tables of the source language -/

/-- The entries that have a mapping in the source language, in order, each with that
mapping. -/
inductive SourceTables : Pairs → List (Data × Pairs) → Prop where
  | nil : SourceTables [] []
  | table {plugin : Data} {languages table : Pairs} {ps : Pairs} {ts : List (Data × Pairs)} :
      (.text sourceLanguage, .mapping table) ∈ languages → SourceTables ps ts →
      SourceTables ((plugin, .mapping languages) :: ps) ((plugin, table) :: ts)
  | other {plugin entry : Data} {ps : Pairs} {ts : List (Data × Pairs)} :
      (∀ languages table, entry = .mapping languages → (.text sourceLanguage, .mapping table) ∉ languages) →
      SourceTables ps ts → SourceTables ((plugin, entry) :: ps) ts

theorem mappingAt_plain {ps : Pairs} (h : havePlain ps = true) (key : Text) (t : Pairs) :
    mappingAt? key (.mapping ps) = some t ↔ (.text key, .mapping t) ∈ ps := by
  rw [← Data.get?_plain h]
  show (Data.get? ps (.text key)).bind Data.pairs? = some t ↔ _
  constructor
  · intro ht
    obtain ⟨d, hd, hdt⟩ := Option.bind_eq_some_iff.1 ht
    cases d with
    | mapping qs =>
      cases hdt
      exact hd
    | _ => cases hdt
  · intro ht
    rw [ht]
    rfl

theorem sourceTables_plain {ps : Pairs} (h : havePlain ps = true) : SourceTables ps (tables ps) := by
  induction ps with
  | nil => exact .nil
  | cons p ps ih =>
    obtain ⟨plugin, entry⟩ := p
    obtain ⟨-, -, hentry, hps⟩ := Data.havePlain_cons h
    cases ht : table? entry with
    | some t =>
      have htables : tables ((plugin, entry) :: ps) = (plugin, t) :: tables ps := by
        simp only [tables, List.filterMap_cons, ht, Option.map_some]
      rw [htables]
      cases entry with
      | mapping languages => exact .table ((mappingAt_plain hentry _ _).1 ht) (ih hps)
      | _ => cases ht
    | none =>
      have htables : tables ((plugin, entry) :: ps) = tables ps := by
        simp only [tables, List.filterMap_cons, ht, Option.map_none]
      rw [htables]
      refine .other ?_ (ih hps)
      rintro languages t rfl hmem
      rw [table?, (mappingAt_plain hentry _ _).2 hmem] at ht
      cases ht

theorem total_eq_sum {κ β : Type} (f : β → Nat) (es : List (κ × β)) :
    Table.total f es = (es.map fun e => f e.2).sum := by
  induction es with
  | nil => rfl
  | cons e es ih => rw [Table.total, ih, List.map_cons, List.sum_cons]

theorem keyCount_grouped {ps : Pairs} (h : isGrouped (.mapping ps) = true) :
    keyCount (.mapping ps) = .ok (Table.total List.length (tables ps)) := by
  simp only [keyCount, keyCount?, h, if_true, Data.pairs?, Option.getD_some]

/-! ## Flat tables -/

def textPairs (t : Table Text Text) : Pairs := t.entries.map fun e => (.text e.1, .text e.2)

theorem textPairs_keys (t : Table Text Text) : (textPairs t).map (·.1) = t.keys.map .text := by
  rw [textPairs, List.map_map, Table.keys, List.map_map]
  rfl

theorem isPlain_texts (t : Table Text Text) : isPlain (.mapping (textPairs t)) = true :=
  Data.havePlain_entries t fun _ _ => rfl

theorem keyCount_flat {ps : Pairs} (h : ∀ p ∈ ps, p.2.isText = true) : keyCount (.mapping ps) = .ok ps.length := by
  have hpairs {d : Data} (hd : d.isText = true) : d.pairs? = none := by
    cases d with
    | mapping => cases hd
    | _ => rfl
  have hgrouped : isGrouped (.mapping ps) = false := by
    match ps with
    | [] => rfl
    | (_, .mapping _) :: _ => exact absurd (h _ List.mem_cons_self) (by simp [Data.isText])
    | (_, .null) :: _ | (_, .bool _) :: _ | (_, .int _) :: _ | (_, .float _) :: _ | (_, .text _) :: _
    | (_, .list _) :: _ | (_, .tuple _) :: _ => rfl
  have hwrapper : mappingAt? wrapper (.mapping ps) = none := by
    show (Data.get? ps (.text wrapper)).bind Data.pairs? = none
    rw [Data.get?]
    cases hfind : ps.find? (·.1 == .text wrapper) with
    | none => rfl
    | some p => exact hpairs (h p (List.mem_of_find?_eq_some hfind))
  simp only [keyCount, keyCount?, hgrouped, hwrapper, length?, Bool.false_eq_true, if_false]

theorem keyCount_texts (t : Table Text Text) : keyCount (.mapping (textPairs t)) = .ok t.size := by
  have hlen : (textPairs t).length = t.size := List.length_map _
  rw [← hlen]
  refine keyCount_flat fun p hp => ?_
  obtain ⟨e, -, rfl⟩ := List.mem_map.1 hp
  rfl

theorem fits_texts (host : Host) (t : Table Text Text) : Fits host (.mapping (textPairs t)) := by
  refine fits_mapping (Nat.zero_le _) (fun p hp => ?_) fun p hp => ?_
  · obtain ⟨e, -, rfl⟩ := List.mem_map.1 hp
    rfl
  · obtain ⟨e, -, rfl⟩ := List.mem_map.1 hp
    exact Nat.le_refl 0

theorem verifyRoundTrip_texts (artifact : Option Text) (t : Table Text Text) (host : Host) :
    verifyRoundTrip artifact (.mapping (textPairs t)) host = .ok t.size :=
  verifyRoundTrip_plain (isPlain_texts t) (fits_texts host t) (keyCount_texts t) artifact

end MessageCatalog.Document
