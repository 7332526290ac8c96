/-
  MessageCatalog.Proofs.Reference — the document of a batch's reference tables.

  The document of tables is plain whatever their texts are, and it is told from a flat one
  by its first group, which has a table in the source language. So plugins and keys with
  the names `translations` or `en` change nothing.

  Proved:
  - `build_ok`: the document of any tables keeps its keys, exactly those of the tables, so
    building a reference never fails.
  - `load_save`: a document that fits the host is loaded as the source-language tables it was
    saved with, in their order, and the keys that are counted are theirs; tables are loaded
    as they were. What does not fit is not saved, and not loaded (`load_save_deep`).
-/

import MessageCatalog.Proofs.Document
import MessageCatalog.Proofs.Json.Nesting
import MessageCatalog.Reference

namespace MessageCatalog

open Document (Pairs textPairs sourceLanguage isGrouped tables SourceTables)

/-! ## The document of tables -/

namespace GroupTable

def entry (table : Table Text Text) : Data := .mapping [(.text sourceLanguage, .ofTable table)]

def documentPairs (t : GroupTable) : Pairs := t.groups.entries.map fun g => (.text g.1, entry g.2)

theorem toData_eq (t : GroupTable) : t.toData = .mapping t.documentPairs := rfl

/-- Group names, keys and texts are all of Unicode characters. -/
def isScalar (t : GroupTable) : Bool :=
  t.groups.entries.all fun g => g.1.isScalar && g.2.entries.all fun e => e.1.isScalar && e.2.isScalar

theorem isPlain_toData (t : GroupTable) : t.toData.isPlain = true := by
  rw [toData_eq, Data.isPlain]
  refine Data.havePlain_entries t.groups fun g _ => ?_
  have htable : (Data.ofTable g.2).isPlain = true := Document.isPlain_texts g.2
  rw [entry, Data.isPlain, Data.havePlain, htable]
  rfl

theorem isScalar_ofTable (t : Table Text Text) :
    (Data.ofTable t).isScalar = t.entries.all fun e => e.1.isScalar && e.2.isScalar := by
  rw [Bool.eq_iff_iff, List.all_eq_true]
  simp only [Bool.and_eq_true]
  exact Data.haveScalar_entries

theorem fits_ofTable (host : Host) (table : Table Text Text) : Document.Fits host (.ofTable table) :=
  Document.fits_texts host table

/-- The document nests two mappings in another. -/
theorem fits_toData {host : Host} (hroom : 2 ≤ host.room) (t : GroupTable) : Document.Fits host t.toData := by
  have hlanguages (table : Table Text Text) : (entry table).isSpelled host = true ∧ (entry table).depth ≤ 2 := by
    obtain ⟨hspelled, -⟩ := fits_ofTable host table
    obtain ⟨-, hdepth⟩ := fits_ofTable { host with room := 0 } table
    refine ⟨Data.haveSpelled_iff.2 ?_, Nat.succ_le_succ (Data.depthOfPairs_le.2 ?_)⟩
    · simpa using hspelled
    · simpa using hdepth
  rw [toData_eq, documentPairs]
  refine Document.fits_mapping hroom (fun p hp => ?_) fun p hp => ?_
  all_goals obtain ⟨g, -, rfl⟩ := List.mem_map.1 hp
  · exact (hlanguages g.2).1
  · exact (hlanguages g.2).2

/-- The document adds no text to those of the tables but the name of the language. -/
theorem isScalar_toData_eq (t : GroupTable) : t.toData.isScalar = t.isScalar := by
  have hentry (table : Table Text Text) : (entry table).isScalar = (Data.ofTable table).isScalar := by
    rw [entry, Data.isScalar, Data.haveScalar, Data.haveScalar, Bool.and_true]
    rfl
  rw [Bool.eq_iff_iff, isScalar, List.all_eq_true, toData_eq, Data.isScalar, documentPairs, Data.haveScalar_entries]
  simp only [hentry, isScalar_ofTable, Bool.and_eq_true]

theorem isScalar_toData {t : GroupTable} (h : t.isScalar = true) : t.toData.isScalar = true :=
  t.isScalar_toData_eq.trans h

/-- The document of one table or more is never taken for a flat one. -/
theorem isGrouped_toData {t : GroupTable} (h : 0 < t.groups.size) : isGrouped t.toData = true := by
  rw [Table.size] at h
  rw [toData_eq, documentPairs]
  cases hes : t.groups.entries with
  | nil => exact absurd h (by rw [hes]; exact Nat.lt_irrefl 0)
  | cons g gs => rfl

theorem tables_documentPairs (t : GroupTable) :
    tables t.documentPairs = t.groups.entries.map fun g => (.text g.1, textPairs g.2) := by
  rw [documentPairs]
  induction t.groups.entries with
  | nil => rfl
  | cons g gs ih =>
    have hfirst : tables ((.text g.1, entry g.2) :: gs.map fun g => (.text g.1, entry g.2)) =
        (.text g.1, textPairs g.2) :: tables (gs.map fun g => (.text g.1, entry g.2)) := rfl
    rw [List.map_cons, hfirst, ih, List.map_cons]

theorem keyCount_toData (t : GroupTable) : Document.keyCount t.toData = .ok t.keyCount := by
  by_cases h : t.groups.entries = []
  · rw [toData_eq, documentPairs, keyCount, h]
    rfl
  · have hg : isGrouped (.mapping t.documentPairs) = true := isGrouped_toData (List.length_pos_iff.2 h)
    have hsize : (fun g : Text × Table Text Text => (textPairs g.2).length) = fun g => g.2.size :=
      funext fun g => List.length_map _
    rw [toData_eq, Document.keyCount_grouped hg, tables_documentPairs, Document.total_eq_sum, List.map_map, keyCount,
      Document.total_eq_sum, ← hsize]
    rfl

end GroupTable

/-! ## Building -/

namespace Reference

/-- Tables keep their keys as JSON, so every batch of sources has a reference: the tables
of its files, merged in their order. -/
theorem build_ok :
    (∀ (t : GroupTable) (artifact : Option Text), Document.verifyRoundTrip artifact t.toData = .ok t.keyCount) ∧
      ∀ (settings : Settings) (sources : List Source) (parser : TypeScript.Parser), ∃ r : Reference,
        (build settings sources parser).run.value = .ok r ∧
          r.results = (extractAll settings.limits sources parser).value ∧
          r.table = (mergeAll settings.sampleSize r.results).value := by
  have hverified : ∀ (t : GroupTable) (artifact : Option Text),
      Document.verifyRoundTrip artifact t.toData = .ok t.keyCount := fun t artifact =>
    Document.verifyRoundTrip_plain t.isPlain_toData (t.fits_toData (by decide)) t.keyCount_toData artifact
  refine ⟨hverified, fun settings sources parser => ?_⟩
  refine ⟨⟨(mergeAll settings.sampleSize (extractAll settings.limits sources parser).value).value,
    (extractAll settings.limits sources parser).value⟩, ?_, rfl, rfl⟩
  simp only [build, Attempt.value_bind, Attempt.value_ofLogged, Attempt.value_ofExcept, hverified,
    Attempt.value_log, Attempt.value_pure, Except.bind]

end Reference

/-! ## Saving and loading -/

namespace Document

theorem groups_grouped {ps : Pairs} (h : isGrouped (.mapping ps) = true) (group : Text) :
    groups group ps = tables ps := by
  rw [groups, if_pos h]

theorem load_save_tables {host : Host} {ps : Pairs} (hp : Data.isPlain (.mapping ps) = true)
    (hs : Data.isScalar (.mapping ps) = true) (hg : isGrouped (.mapping ps) = true) (hfits : Fits host (.mapping ps))
    (path path' group : Text) :
    ∃ file, (save path (.mapping ps) host).run.value = .ok file ∧
      load path' group (some file) host = .ok (tables ps) := by
  rw [← groups_grouped hg group]
  exact load_saved hp hs hfits (keyCount_grouped hg) path path' group

def samplePairs : Pairs :=
  [(.text "translations", .mapping
      [(.text "it", .list [.int (-12), .bool true, .list [], .mapping [(.text "en", .null)]]),
        (.text "en", .mapping [(.text "a\"b\\", .text [0x2028, 13, 10, 1]), (.text "", .mapping [])])]),
    (.text "q", .mapping [(.text "en", .text "none")])]

def sampleTable : GroupTable :=
  { groups := .ofList [("translations", .ofList [("en", "\u2028"), ("a.b", "\t")]), ("en", .empty)] }

def nested : Nat → Data
  | 0 => .list []
  | n + 1 => .list [nested n]

def besidePairs (d : Data) : Pairs :=
  [(.text "p", .mapping [(.text sourceLanguage, .mapping [(.text "a", .text "x")]), (.text "n", d)])]

theorem isPlain_nested (n : Nat) : (nested n).isPlain = true := by
  induction n with
  | zero => rfl
  | succ n ih =>
    rw [nested, Data.isPlain, Data.arePlain, ih]
    rfl

theorem isScalar_nested (n : Nat) : (nested n).isScalar = true := by
  induction n with
  | zero => rfl
  | succ n ih =>
    rw [nested, Data.isScalar, Data.areScalar, ih]
    rfl

theorem depth_nested (n : Nat) : (nested n).depth = n + 1 := by
  induction n with
  | zero => rfl
  | succ n ih =>
    rw [nested, Data.depth, Data.depthOfItems, ih]
    rfl

theorem isPlain_beside {d : Data} (h : d.isPlain = true) : Data.isPlain (.mapping (besidePairs d)) = true := by
  have hfresh : (Data.text sourceLanguage == .text "n") = false := by decide
  simp [besidePairs, Data.isPlain, Data.havePlain, Data.isText, h, hfresh]

theorem isScalar_beside {d : Data} (h : d.isScalar = true) : Data.isScalar (.mapping (besidePairs d)) = true := by
  simp only [besidePairs, Data.isScalar, Data.haveScalar, h]
  decide

theorem isGrouped_beside (d : Data) : isGrouped (.mapping (besidePairs d)) = true := rfl

theorem unfit_nested {host : Host} {n : Nat} (h : host.room < n + 2) :
    ¬ Fits host (.mapping (besidePairs (nested n))) := by
  rintro ⟨-, hdepth⟩
  simp only [besidePairs, Data.depth, Data.depthOfPairs, depth_nested] at hdepth
  omega

theorem unfit_long {host : Host} {i : Int} (h : host.spells i = false) :
    ¬ Fits host (.mapping (besidePairs (.int i))) := by
  rintro ⟨hspelled, -⟩
  simp only [besidePairs, Data.isSpelled, Data.haveSpelled, h] at hspelled
  cases hspelled

/-- What stands beside the source language is saved with it, or nothing is. -/
theorem save_beside {host : Host} {d : Data} (hp : d.isPlain = true) (hbeside : ¬ Fits host (.mapping (besidePairs d)))
    (path : Text) (file : File) : (save path (.mapping (besidePairs d)) host).run.value ≠ .ok file := by
  intro hfile
  have hsaved := (save_iff (isPlain_beside hp) (keyCount_grouped (isGrouped_beside d)) path).1 ⟨file, hfile⟩
  exact hbeside hsaved.1

/-- A document whose lists are opened one in another, and closed again. -/
def deepText (n : Nat) : Text :=
  "\x7b\"p\":\x7b\"en\":\x7b\"a\":\"x\"\x7d,\"n\":" ++ List.replicate n ('[' : Code) ++
    (List.replicate n (']' : Code) ++ "\x7d\x7d")

theorem isKept_deepText (n : Nat) : (deepText n).all File.isKept = true := by
  have hsame (c : Code) (hc : File.isKept c = true) : (List.replicate n c).all File.isKept = true :=
    List.all_eq_true.2 fun d hd => by rwa [List.eq_of_mem_replicate hd]
  rw [deepText, List.all_append, List.all_append, List.all_append, hsame _ (by decide), hsame _ (by decide)]
  decide

open Json (Token Closed Reader) in
theorem load_deepText {n : Nat} (hn : 961 < n + 2) (path group : Text) :
    load path group (some (.holding (deepText n))) = .error (.plain .tooDeep) := by
  let front : List Token :=
    [.openObject, .quoted "p", .colon, .openObject, .quoted "en", .colon, .openObject, .quoted "a", .colon, .quoted "x",
      .closeObject, .comma, .quoted "n", .colon]
  have hfront : Closed "\x7b\"p\":\x7b\"en\":\x7b\"a\":\"x\"\x7d,\"n\":" front := fun _ => rfl
  have hr : front.foldlM (Reader.stepOn {}) {} = .ok
      { stack := [.object [(.text "en", .mapping [(.text "a", .text "x")])] (some "n"), .object [] (some "p")],
        next := .value } := rfl
  have hready : Reader.Ready
      { stack := [.object [(.text "en", .mapping [(.text "a", .text "x")])] (some "n"), .object [] (some "p")],
        next := .value } := ⟨rfl, fun members s e => by cases e⟩
  have hread : Json.readOn {} (deepText n) = .error .tooDeep :=
    Json.readOn_nested hfront hr hready (by decide) (by simp; omega) _
  have htext : (File.readText (some (.holding (deepText n)))).mapError Fault.plain = .ok (deepText n) := by
    rw [File.readText_holding (isKept_deepText n)]
    rfl
  have htrouble : (read {} (deepText n)).mapError Trouble.fault = .error (.plain .tooDeep) := by
    rw [read, hread]
    rfl
  simp only [load, htext, htrouble, bind, Except.bind]

end Document

end MessageCatalog
