/-
  MessageCatalog.Proofs.Reconciliation.Artifacts — artifacts against their reference.

  Proved: artifacts that were written from tables are reconciled exactly
  (`reconcileArtifacts_deployed`), whatever their texts say: each language has the
  difference between the reference and its own table.
-/

import MessageCatalog.Proofs.Artifact.KeySet
import MessageCatalog.Proofs.Reconciliation.Reconcile

namespace MessageCatalog.Reconciliation

open Document (textPairs)

/-! ## The report in lines -/

theorem isSome_mapM {α β : Type} {f : α → Option β} {xs : List α} (h : ∀ x ∈ xs, (f x).isSome = true) :
    (xs.mapM f).isSome = true := by
  induction xs with
  | nil => rfl
  | cons x xs ih =>
    obtain ⟨y, hy⟩ := Option.isSome_iff_exists.1 (h x (by simp))
    obtain ⟨ys, hys⟩ := Option.isSome_iff_exists.1 (ih fun z hz => h z (List.mem_cons_of_mem x hz))
    rw [List.mapM_cons, hy, hys]
    rfl

theorem mem_of_mem_sample {α : Type} {n : Int} {xs : List α} {x : α} (h : x ∈ sample n xs) : x ∈ xs := by
  rw [sample] at h
  split at h <;> exact List.mem_of_mem_take h

def Difference.isTextual (x : Difference) : Bool := x.missing.all Data.isText && x.extra.all Data.isText

theorem isTextual_ofKeys (reference deployed : List Text) :
    (Difference.ofKeys reference deployed).isTextual = true := by
  simp [Difference.isTextual, Difference.ofKeys, Data.isText]

namespace Discrepancies

theorem isSome_keyLines (n : Int) (language : Data) (label : Text) {keys : List Data}
    (h : keys.all Data.isText = true) : (keyLines? n language label keys).isSome = true := by
  have hnames : ((sample n keys).mapM asText?).isSome = true := by
    refine isSome_mapM fun k hk => ?_
    have := List.all_eq_true.1 h k (mem_of_mem_sample hk)
    cases k with
    | text t => rfl
    | _ => cases this
  obtain ⟨names, hnames⟩ := Option.isSome_iff_exists.1 hnames
  rw [keyLines?]
  split
  · rfl
  · rw [hnames]
    rfl

theorem isSome_languageLines (n : Int) (language : Data) {x : Difference} (h : x.isTextual = true) :
    (languageLines? n language x).isSome = true := by
  rw [Difference.isTextual, Bool.and_eq_true] at h
  obtain ⟨ms, hms⟩ := Option.isSome_iff_exists.1 (isSome_keyLines n language "missing" h.1)
  obtain ⟨es, hes⟩ := Option.isSome_iff_exists.1 (isSome_keyLines n language "extra" h.2)
  rw [languageLines?, hms, hes]
  rfl

theorem isSome_lines (n : Int) {d : Discrepancies} {languages : List Text}
    (hkeys : d.languages.keys = languages.map .text) (h : ∀ e ∈ d.languages.entries, e.2.isTextual = true) :
    (d.lines? n).isSome = true := by
  obtain ⟨names, hnames⟩ := Data.sorted_texts languages
  have hsorted : d.sortedLanguages? =
      some ((names.map Data.text).map fun l => (l, (d.languages.get? l).getD {})) := by
    rw [sortedLanguages?, hkeys, hnames]
    rfl
  have hget : ∀ l, ((d.languages.get? l).getD {}).isTextual = true := by
    intro l
    rw [Table.get?]
    cases hfind : d.languages.entries.find? (·.1 == l) with
    | none => rfl
    | some e => exact h e (List.mem_of_find?_eq_some hfind)
  have hlines : (((names.map Data.text).map fun l => (l, (d.languages.get? l).getD {})).mapM
      fun x => languageLines? n x.1 x.2).isSome = true := by
    refine isSome_mapM fun x hx => ?_
    obtain ⟨l, -, rfl⟩ := List.mem_map.1 hx
    exact isSome_languageLines n l (hget l)
  obtain ⟨ls, hls⟩ := Option.isSome_iff_exists.1 hlines
  simp only [lines?, hsorted, Option.bind_eq_bind, Option.bind_some, hls]
  rfl

end Discrepancies

/-! ## Artifacts that were written -/

/-- An artifact written from a table of valid keys. -/
structure Deployment where
  frame : Artifact.Frame
  texts : Table Text Text
  areValid : texts.keys.all Key.isValid = true
  indent : Text := "  "
  isBlank : indent.all Literal.isBlank = true := by decide

namespace Deployment

def literal (d : Deployment) : Text := Literal.render d.indent d.texts.entries

def source (d : Deployment) : Text := d.frame.source d.literal

def fits (limits : Limits) (d : Deployment) : Bool :=
  Literal.entriesFit limits d.texts.entries && d.literal.length ≤ limits.maxContentLength

theorem keySet_deployed {limits : Limits} (d : Deployment) (h : d.fits limits = true) :
    (Artifact.keySet limits d.source).run.value = .ok d.texts.keys := by
  rw [fits, Bool.and_eq_true, decide_eq_true_eq] at h
  exact Artifact.keySet_source d.frame d.areValid d.isBlank h.1 h.2

end Deployment

theorem collectOne_deployed {limits : Limits} {d : Deployment} (h : d.fits limits = true) (c : Collected)
    (language : Text) :
    (collectOne {} limits c (language, d.source)).run.value =
      .ok { c with keySets := c.keySets.insert language d.texts.keys } := by
  rw [collectOne, Attempt.value_bind, Attempt.value_ofLogged, d.keySet_deployed h]
  rfl

theorem foldlM_collectOne {limits : Limits} {es : List (Text × Deployment)} (h : ∀ e ∈ es, e.2.fits limits = true)
    (c : Collected) :
    ((es.map fun e => (e.1, e.2.source)).foldlM (collectOne {} limits) c).run.value =
      .ok { c with keySets := c.keySets.insertAll (es.map fun e => (e.1, e.2.texts.keys)) } := by
  induction es generalizing c with
  | nil => rfl
  | cons e es ih =>
    rw [List.map_cons, List.foldlM_cons, Attempt.value_bind, collectOne_deployed (h e (by simp)), Except.bind,
      ih fun x hx => h x (List.mem_cons_of_mem e hx)]
    rfl

theorem collect_deployed {limits : Limits} {artifacts : Table Text Deployment}
    (h : ∀ e ∈ artifacts.entries, e.2.fits limits = true) :
    ∃ c, (collect limits none (artifacts.entries.map fun e => (e.1, e.2.source))).run.value = .ok c ∧
      c.keySets.entries = artifacts.entries.map fun e => (e.1, e.2.texts.keys) := by
  have hkeys :
      ((artifacts.entries.map fun e => (e.1, e.2.texts.keys)).map (·.1)).Pairwise fun a b => (a == b) = false := by
    rw [List.map_map]
    exact artifacts.distinct
  exact ⟨_, foldlM_collectOne h _, Table.entries_ofList hkeys⟩

/-- Artifacts written from tables are reconciled exactly, whatever their texts say. -/
theorem reconcileArtifacts_deployed (settings : Settings) (reference : Table Text Text)
    (artifacts : Table Text Deployment) (artifact : Option Text)
    (h : ∀ e ∈ artifacts.entries, e.2.fits settings.limits = true) :
    ∃ d, (reconcileArtifacts settings (textPairs reference) (artifacts.entries.map fun e => (e.1, e.2.source))
        artifact).run.value = .ok d ∧
      d.referenceCount = reference.size ∧
      d.languages.entries = (dedup (settings.languages ++ artifacts.keys)).map fun l =>
        (.text l, .ofKeys reference.keys ((artifacts.get? l).elim [] (·.texts.keys))) := by
  obtain ⟨c, hcollect, hentries⟩ := collect_deployed h
  have hkeys : c.keySets.keys = artifacts.keys := by
    rw [Table.keys, hentries, List.map_map]
    rfl
  have hget : ∀ l, dedup ((c.keySets.get? l).getD []) = (artifacts.get? l).elim [] (·.texts.keys) := by
    intro l
    rw [Table.get?_map (fun d : Deployment => d.texts.keys) hentries]
    cases artifacts.get? l with
    | none => rfl
    | some d => exact Distinct.toList_ofList d.texts.distinct
  have hlanguages : (dedup (settings.languages ++ artifacts.keys)).Pairwise fun a b => (a == b) = false :=
    (Distinct.ofList _).distinct
  obtain ⟨d, hrun, hcount, hreport⟩ := reconcile_texts reference c.keySets hlanguages artifact
  have hnames : d.languages.keys = (dedup (settings.languages ++ artifacts.keys)).map .text := by
    rw [Table.keys, hreport, List.map_map]
    rfl
  -- all names are texts, so there are lines to log
  have htextual : ∀ e ∈ d.languages.entries, e.2.isTextual = true := by
    intro e he
    rw [hreport] at he
    obtain ⟨l, -, rfl⟩ := List.mem_map.1 he
    exact isTextual_ofKeys _ _
  obtain ⟨lines, hlines⟩ := Option.isSome_iff_exists.1 (d.isSome_lines settings.sampleSize hnames htextual)
  refine ⟨d, ?_, hcount, ?_⟩
  · simp only [reconcileArtifacts, Attempt.value_bind, hcollect, Except.bind]
    rw [hkeys, hrun]
    simp only [hlines]
    rfl
  · rw [hreport]
    exact List.map_congr_left fun l _ => by rw [hget]

def sampleArtifacts : Table Text Deployment :=
  .ofList [
    ("fr", ⟨.property, .ofList [("b", "messages: \x7b"), ("a.x", "\x7d);")], rfl, "  ", rfl⟩),
    ("de", ⟨.constant 'g' "e" rfl rfl (by decide), .ofList [("a.x", "export const aMessages = \x7b 'b': '' \x7d")],
      rfl, "", rfl⟩)]

theorem reconcileArtifacts_sample :
    ∃ d, (reconcileArtifacts { languages := ["it", "de"] } (textPairs (.ofList [("a.x", "A"), ("c", "C")]))
        (sampleArtifacts.entries.map fun e => (e.1, e.2.source)) none).run.value = .ok d ∧
      d.referenceCount = 2 ∧
      d.languages.entries = [
        (.text "it", ⟨[.text "a.x", .text "c"], []⟩), (.text "de", ⟨[.text "c"], []⟩),
        (.text "fr", ⟨[.text "c"], [.text "b"]⟩)] := by
  have hfits : ∀ e ∈ sampleArtifacts.entries,
      e.2.fits ({ languages := ["it", "de"] } : Settings).limits = true := by
    decide +kernel
  exact reconcileArtifacts_deployed { languages := ["it", "de"] } (.ofList [("a.x", "A"), ("c", "C")])
    sampleArtifacts none hfits

end MessageCatalog.Reconciliation
