/-
  MessageCatalog.Proofs.Diagnostics — what a report without issues says of a batch.

  Whatever is recorded makes an issue of itself, and nothing takes one back. So from a
  report without issues every record that a result would have made can be ruled out: no
  key was rejected, no source was scanned by lines, no file was skipped and no text
  overwritten. Literals that are too long are not recorded, only noted with the result.

  Proved: if the report of a batch has no issues, every result is in the document as it
  is, and is complete but for the literals that its warnings note, one for each that is
  too long (`build_clean`).
-/

import MessageCatalog.Proofs.Extraction.Literals
import MessageCatalog.Proofs.GroupTable
import MessageCatalog.Proofs.Reference
import MessageCatalog.Proofs.TypeScript.Within

namespace MessageCatalog

/-! ## Records are issues -/

theorem Table.isEmpty_insert {κ β : Type} [BEq κ] [LawfulBEq κ] (t : Table κ β) (k : κ) (v : β) :
    (t.insert k v).isEmpty = false := by
  have hget : (t.insert k v).get? k = some v := by rw [get?_insert, if_pos (beq_self_eq_true k)]
  cases hes : (t.insert k v).entries with
  | nil =>
    rw [get?, hes] at hget
    cases hget
  | cons e es => rw [isEmpty, hes, List.isEmpty_cons]

namespace Diagnostics

variable (d : Diagnostics)

theorem hasIssues_recordInvalidKeys (file : Text) (keys : List Text) :
    (d.recordInvalidKeys file keys).value.hasIssues = (d.hasIssues || !keys.isEmpty) := by
  cases keys with
  | nil => exact (Bool.or_false _).symm
  | cons k ks =>
    have hvalue : ∃ known, (d.recordInvalidKeys file (k :: ks)).value =
        { d with invalidKeys := d.invalidKeys.insert file known } := ⟨_, rfl⟩
    obtain ⟨known, hvalue⟩ := hvalue
    simp [hvalue, hasIssues, Table.isEmpty_insert]

theorem hasIssues_recordFallback (file : Text) : (d.recordFallback file).hasIssues = true := by
  have hfile : (d.fallbackFiles.add file).toList.isEmpty = false := by
    have hmem := Distinct.contains_add d.fallbackFiles file
    rw [Distinct.contains] at hmem
    cases hfiles : (d.fallbackFiles.add file).toList with
    | nil =>
      rw [hfiles] at hmem
      cases hmem
    | cons f fs => rfl
  simp [hasIssues, recordFallback, hfile]

theorem hasIssues_recordOverwrite (plugin file : Text) (keys : List Text) :
    (d.recordOverwrite plugin file keys).value.hasIssues = (d.hasIssues || !keys.isEmpty) := by
  rw [GroupTable.recordOverwrite_value]
  cases keys with
  | nil => simp [hasIssues]
  | cons k ks => simp [hasIssues, Table.alter, Table.isEmpty_insert]

theorem hasIssues_recordSkip (file reason : Text) : (d.recordSkip file reason).value.hasIssues = true := by
  have hvalue : (d.recordSkip file reason).value = { d with skipped := d.skipped ++ [⟨file, reason⟩] } := rfl
  simp [hvalue, hasIssues]

theorem hasIssues_recordError (r : Report) (file : Option Text) : (d.recordError r file).value.hasIssues = true := by
  have hvalue : (d.recordError r file).value = { d with errors := d.errors ++ [(r, file)] } := rfl
  simp [hvalue, hasIssues]

end Diagnostics

/-! ## Batches -/

namespace Reference

open Extraction (Extracted extract sizeNotes literals allowsElements)
open GroupTable (target? start)

/-- A merge takes no issue back. -/
theorem merge_clean {t : GroupTable} {x : Extracted} (h : (t.merge x).value.1.diagnostics.hasIssues = false) :
    t.diagnostics.hasIssues = false := by
  rw [GroupTable.merge] at h
  cases hrefusal : GroupTable.refusal (GroupTable.groupName x) with
  | some reason =>
    simp only [hrefusal, Logged.value_bind, Logged.value_pure, Diagnostics.hasIssues_recordSkip] at h
    cases h
  | none =>
    simp only [hrefusal, Logged.value_bind, Logged.value_pure, Diagnostics.hasIssues_recordOverwrite,
      Bool.or_eq_false_iff] at h
    exact h.1

theorem add_clean {t : GroupTable} {x : Extracted} (h : (add t x).value.diagnostics.hasIssues = false) :
    t.diagnostics.hasIssues = false ∧ x.rejected = [] ∧ x.usedFallback = false := by
  have hrecorded := merge_clean h
  cases hx : x.usedFallback with
  | true =>
    simp only [hx, if_true, Diagnostics.hasIssues_recordFallback] at hrecorded
    cases hrecorded
  | false =>
    simp only [hx, Bool.false_eq_true, if_false, Diagnostics.hasIssues_recordInvalidKeys,
      Bool.or_eq_false_iff] at hrecorded
    exact ⟨hrecorded.1, by simpa using hrecorded.2, rfl⟩

theorem foldl_clean {xs : List Extracted} {t : GroupTable}
    (h : (xs.foldl (fun t x => (add t x).value) t).diagnostics.hasIssues = false) :
    t.diagnostics.hasIssues = false ∧ ∀ x ∈ xs, x.rejected = [] ∧ x.usedFallback = false := by
  induction xs generalizing t with
  | nil => exact ⟨h, nofun⟩
  | cons x xs ih =>
    obtain ⟨hadd, hrest⟩ := ih h
    obtain ⟨ht, hx⟩ := add_clean hadd
    refine ⟨ht, fun y hy => ?_⟩
    rcases List.mem_cons.1 hy with rfl | hy
    · exact hx
    · exact hrest y hy

theorem mergeAll_clean {sampleSize : Int} {xs : List Extracted}
    (h : (mergeAll sampleSize xs).value.diagnostics.hasIssues = false) :
    ∀ x ∈ xs, x.rejected = [] ∧ x.usedFallback = false := by
  rw [mergeAll, Logged.value_foldlM] at h
  exact (foldl_clean h).2

/-- No file was skipped and nothing overwritten, so what a result says is in the tables. -/
theorem mergeAll_kept {sampleSize : Int} {xs : List Extracted}
    (h : (mergeAll sampleSize xs).value.diagnostics.hasIssues = false) {x : Extracted} (hx : x ∈ xs) :
    ∃ g, target? x = some g ∧
      ∀ k v, x.keys.get? k = some v → (mergeAll sampleSize xs).value.stored g k = some v := by
  obtain ⟨hgroups, hoverwrites, hskipped⟩ := GroupTable.mergeAll_run sampleSize xs
  have history := (GroupTable.run_history sampleSize xs).congr hgroups hoverwrites hskipped
  simp only [Diagnostics.hasIssues, Bool.or_eq_false_iff, Bool.not_eq_eq_eq_not, Bool.not_false,
    List.isEmpty_iff] at h
  obtain ⟨⟨⟨⟨-, -⟩, hover⟩, hskip⟩, -⟩ := h
  cases ht : target? x with
  | none =>
    have hfile : x.file ∈ (xs.filter fun x => target? x = none).map (·.file) :=
      List.mem_map_of_mem (List.mem_filter.2 ⟨hx, by simpa using ht⟩)
    rw [← history.skipped, Diagnostics.skippedFiles, hskip] at hfile
    cases hfile
  | some g =>
    refine ⟨g, rfl, fun k v hv => Classical.not_not.1 fun hlost => ?_⟩
    have hgiven : GroupTable.given x g k = some v := by rw [GroupTable.given, if_pos ht, hv]
    have hlisted := history.noted x hx g k v hgiven hlost
    have hnone : (mergeAll sampleSize xs).value.overwritten g = [] := by
      rw [GroupTable.overwritten, Table.get?, List.isEmpty_iff.1 hover]
      rfl
    rw [hnone] at hlisted
    cases hlisted

theorem value_build (settings : Settings) (sources : List Source) (parser : TypeScript.Parser) :
    (build settings sources parser).run.value =
      .ok ⟨(mergeAll settings.sampleSize (extractAll settings.limits sources parser).value).value,
        (extractAll settings.limits sources parser).value⟩ := by
  have hverified (t : GroupTable) : Document.verifyRoundTrip none t.toData = .ok t.keyCount :=
    Document.verifyRoundTrip_plain t.isPlain_toData (t.fits_toData (by decide)) t.keyCount_toData none
  simp only [build, Attempt.value_bind, Attempt.value_ofLogged, Attempt.value_ofExcept, hverified, Attempt.value_log,
    Attempt.value_pure, Except.bind]

theorem value_extractAll (limits : Limits) (sources : List Source) (parser : TypeScript.Parser) :
    (extractAll limits sources parser).value = sources.map fun s => (extract limits s.path s.text parser).value := by
  rw [extractAll]
  induction sources with
  | nil => rfl
  | cons s sources ih =>
    rw [List.mapM_cons]
    simp only [Logged.value_bind, Logged.value_pure, ih, List.map_cons]

theorem value_build_tree (settings : Settings) {s : Source} {parser : TypeScript.Parser} {root : TypeScript.Node}
    (h : parser (allowsElements s.path) s.text = some root) :
    let x := (Extraction.gatherTree { file := s.path, limits := settings.limits } root).value.result
    (build settings [s] parser).run.value = .ok ⟨(mergeAll settings.sampleSize [x]).value, [x]⟩ := by
  rw [value_build, value_extractAll, List.map_singleton, Extraction.extract_tree settings.limits h]

/-! ## The document -/

def textIn? (document : Data) (g k : Text) : Option Data := do
  let entry ← Data.get? (← document.pairs?) (.text g)
  Data.get? (← Document.table? entry) (.text k)

theorem textIn?_toData (t : GroupTable) (g k : Text) : textIn? t.toData g k = (t.stored g k).map .text := by
  have htable (table : Table Text Text) :
      Document.table? (GroupTable.entry table) = some (Document.textPairs table) := rfl
  have hpairs (table : Table Text Text) :
      Data.get? (Document.textPairs table) (.text k) = (table.get? k).map .text := Data.get?_text table .text k
  have hentry : Data.get? t.documentPairs (.text g) = (t.groups.get? g).map GroupTable.entry :=
    Data.get?_text t.groups GroupTable.entry g
  rw [textIn?, GroupTable.toData_eq]
  simp only [Data.pairs?, Option.bind_eq_bind, Option.bind_some, hentry, GroupTable.stored]
  cases t.groups.get? g with
  | none => rfl
  | some table => simp only [Option.map_some, Option.bind_some, htable, hpairs]

/-! ## Reports without issues -/

/-- The result `x` for a source has lost nothing but what its warnings note: the literals
that are longer than the limit. -/
structure Complete (parser : TypeScript.Parser) (limits : Limits) (document : Data) (s : Source) (x : Extracted) :
    Prop where
  rejected : x.rejected = []
  parsed : x.usedFallback = false
  kept : ∃ g, GroupTable.groupName x = some g ∧
    ∀ k v, x.keys.get? k = some v → textIn? document g k = some (.text v)
  noted : ∃ root, parser (allowsElements s.path) s.text = some root ∧
    x.warnings = sizeNotes limits (literals root)

/-- Every batch has a reference, and if its report has no issues, every result is complete
and in the document. -/
theorem build_clean (settings : Settings) (sources : List Source) (parser : TypeScript.Parser) : ∃ r : Reference,
    (build settings sources parser).run.value = .ok r ∧
      r.results = (sources.map fun s => (extract settings.limits s.path s.text parser).value) ∧
      (r.table.diagnostics.hasIssues = false → ∀ s ∈ sources,
        Complete parser settings.limits r.table.toData s (extract settings.limits s.path s.text parser).value) := by
  refine ⟨_, value_build settings sources parser, value_extractAll _ _ _, fun hclean s hs => ?_⟩
  have hx : (extract settings.limits s.path s.text parser).value ∈
      (extractAll settings.limits sources parser).value := by
    rw [value_extractAll]
    exact List.mem_map_of_mem hs
  obtain ⟨hrejected, hparsed⟩ := mergeAll_clean hclean _ hx
  obtain ⟨g, hg, hkept⟩ := mergeAll_kept hclean hx
  refine ⟨hrejected, hparsed, ⟨g, (Option.filter_eq_some_iff.1 hg).1, fun k v hv => ?_⟩, ?_⟩
  · rw [textIn?_toData, hkept k v hv]
    rfl
  · cases hroot : parser (allowsElements s.path) s.text with
    | none =>
      rw [Extraction.extract_scan settings.limits hroot] at hparsed
      cases hparsed
    | some root =>
      refine ⟨root, rfl, ?_⟩
      rw [Extraction.extract_tree settings.limits hroot]
      exact Extraction.warnings_literals (Extraction.gatherTree_fromSites s.path settings.limits root)

def sampleSource : Source := ⟨"a.ts", "createTranslationRef(\x7bid:'p',messages:\x7ba:'x'\x7d\x7d)"⟩

/-- The settings under which that literal is too long. -/
def tight : Settings := { maxContentLength := 6 }

def sampleResult (settings : Settings) (root : TypeScript.Node) : Extracted :=
  (Extraction.gatherTree { file := sampleSource.path, limits := settings.limits } root).value.result

theorem value_build_sample (settings : Settings) {root : TypeScript.Node}
    (h : TypeScript.parse (allowsElements sampleSource.path) sampleSource.text = some root) :
    (build settings [sampleSource]).run.value =
      .ok ⟨(mergeAll settings.sampleSize [sampleResult settings root]).value, [sampleResult settings root]⟩ :=
  value_build_tree settings h

/-- The literal is within the limit: there is no issue, and its key is in the document. -/
theorem build_clean_sample : ∃ r : Reference, (build {} [sampleSource]).run.value = .ok r ∧
    r.table.diagnostics.hasIssues = false ∧ (∀ x ∈ r.results, x.warnings = []) ∧
    textIn? r.table.toData "p" "a" = some (.text "x") := by
  obtain ⟨root, hroot, hclean, hwarnings, hplugin, hkey⟩ : ∃ root,
      TypeScript.parse (allowsElements sampleSource.path) sampleSource.text = some root ∧
        (mergeAll 5 [sampleResult {} root]).value.diagnostics.hasIssues = false ∧
        (sampleResult {} root).warnings = [] ∧ GroupTable.groupName (sampleResult {} root) = some ("p" : Text) ∧
        (sampleResult {} root).keys.get? "a" = some ("x" : Text) :=
    TypeScript.parse_satisfies 300 _ (by decide +kernel)
  obtain ⟨r, hr, hresults, hcomplete⟩ := build_clean {} [sampleSource] TypeScript.parse
  have hbuilt := value_build_sample {} hroot
  rw [hr] at hbuilt
  obtain rfl := Except.ok.inj hbuilt
  have hx := hcomplete hclean sampleSource (by simp)
  rw [Extraction.extract_tree _ hroot] at hx
  obtain ⟨g, hg, hkept⟩ := hx.kept
  obtain rfl : ("p" : Text) = g := Option.some.inj (hplugin.symm.trans hg)
  refine ⟨_, hr, hclean, fun x hx => ?_, hkept "a" "x" hkey⟩
  rw [List.mem_singleton.1 hx]
  exact hwarnings

/-- The literal is too long: its key is lost, and there is still no issue, though there
would be one if the error were recorded. -/
theorem build_clean_differs : ∃ r : Reference, (build tight [sampleSource]).run.value = .ok r ∧
    r.table.diagnostics.hasIssues = false ∧
    r.results.map (·.warnings) = [[("Literal too large (7 chars), not scanned" : Text)]] ∧
    ∀ (report : Report) (file : Option Text), (r.table.diagnostics.recordError report file).value.hasIssues = true := by
  obtain ⟨root, hroot, hclean, hwarnings⟩ : ∃ root,
      TypeScript.parse (allowsElements sampleSource.path) sampleSource.text = some root ∧
        (mergeAll 5 [sampleResult tight root]).value.diagnostics.hasIssues = false ∧
        (sampleResult tight root).warnings = [("Literal too large (7 chars), not scanned" : Text)] :=
    TypeScript.parse_satisfies 300 _ (by decide +kernel)
  refine ⟨_, value_build_sample tight hroot, hclean, ?_, Diagnostics.hasIssues_recordError _⟩
  rw [List.map_singleton, hwarnings]

end Reference

end MessageCatalog
