/-
  MessageCatalog.Proofs.Settings.Languages — a list of languages in normal form.

  Trimming, dropping what is blank and dropping repetitions each leave alone what the
  others have done, so doing all of it a second time changes nothing. Joined by commas, the
  languages are cut into themselves again, unless one has a comma in it.

  Proved: a list becomes one in normal form, of the same languages in the order in which
  they first occur (`isNormal_normalize`, `listed_normalize`); with a library that keeps its
  promises a normal list is read as itself, as a list and as a text (`readLanguages_list`,
  `readLanguages_text`).
-/

import MessageCatalog.Proofs.Table
import MessageCatalog.Proofs.Text
import MessageCatalog.Settings.Validate

namespace MessageCatalog.Settings

/-! ## Normal form -/

/-- No language twice, none empty, none with white space around it. -/
structure IsNormal (ts : List Text) : Prop where
  distinct : ts.Nodup
  nonempty : ∀ t ∈ ts, t ≠ []
  trimmed : ∀ t ∈ ts, Text.IsTrimmed Text.isSpace t

/-- The languages are the items, trimmed, but for the blank ones, and of two languages the
one that is found first among the items comes first. -/
structure Listed (items ts : List Text) : Prop where
  mem_iff : ∀ t, t ∈ ts ↔ t ≠ [] ∧ t ∈ items.map Text.trim
  order : ts.Pairwise fun a b => ∃ front back, items.map Text.trim = front ++ a :: back ∧ b ∉ front

theorem normalize_eq (items : List Text) :
    normalize items = (dedup (items.map Text.trim)).filter fun t => !t.isEmpty :=
  (Distinct.filter_dedup (fun t : Text => !t.isEmpty) _).symm

theorem listed_normalize (items : List Text) : Listed items (normalize items) := by
  refine ⟨fun t => ?_, ?_⟩
  · rw [normalize_eq, List.mem_filter, Distinct.mem_dedup_iff fun _ => beq_iff_eq, and_comm]
    simp
  · rw [normalize_eq]
    exact (Distinct.pairwise_dedup _).filter _

theorem isNormal_normalize (items : List Text) : IsNormal (normalize items) := by
  have hmem {t : Text} (h : t ∈ normalize items) : t ≠ [] ∧ t ∈ items.map Text.trim :=
    ((listed_normalize items).mem_iff t).1 h
  refine ⟨Distinct.nodup _, fun t h => (hmem h).1, fun t h => ?_⟩
  obtain ⟨u, -, rfl⟩ := List.mem_map.1 (hmem h).2
  exact Text.isTrimmed_trimBy _ u

theorem normalize_eq_self {ts : List Text} (h : IsNormal ts) : normalize ts = ts := by
  have htrim : ts.map Text.trim = ts :=
    (List.map_congr_left fun t ht => Text.trimBy_eq_self (h.trimmed t ht)).trans (List.map_id ts)
  have hfilter : ts.filter (fun t => !t.isEmpty) = ts :=
    List.filter_eq_self.2 fun t ht => by simpa using h.nonempty t ht
  rw [normalize, htrim, hfilter]
  exact Distinct.toList_ofList (h.distinct.imp fun hne => beq_false_of_ne hne)

/-! ## Reading -/

/-- The items of a value, blank ones and repetitions included. -/
inductive Spells : Data → List Text → Prop
  | text (t : Text) : Spells (.text t) (Text.splitOn ',' t)
  | list (items : List Text) : Spells (.ofTexts items) items
  | tuple (items : List Text) : Spells (.tuple (items.map .text)) items

theorem normalize_splitLanguages (t : Text) : normalize (splitLanguages t) = normalize (Text.splitOn ',' t) := by
  have htrim : (splitLanguages t).map Text.trim = splitLanguages t := by
    refine (List.map_congr_left fun u hu => ?_).trans (List.map_id _)
    obtain ⟨w, -, hw⟩ := List.mem_map.1 (List.mem_filter.1 hu).1
    rw [← hw]
    exact Text.trimBy_eq_self (Text.isTrimmed_trimBy _ w)
  rw [normalize, htrim, splitLanguages, List.filter_filter, normalize]
  simp only [Bool.and_self]

section

variable {library : Library} (hlibrary : library.Documented)
include hlibrary

theorem readLanguages_ofText (t : Text) :
    readLanguages library (.text t) = .ok (normalize (Text.splitOn ',' t)) := by
  rw [readLanguages, listed, hlibrary.texts_list, ← normalize_splitLanguages]
  rfl

theorem readLanguages_ofTexts (ts : List Text) : readLanguages library (.ofTexts ts) = .ok (normalize ts) := by
  have hlisted : listed (.ofTexts ts) = .ofTexts ts := rfl
  rw [readLanguages, hlisted, hlibrary.texts_list]
  rfl

theorem readLanguages_ok {d : Data} {ts : List Text} (h : readLanguages library d = .ok ts) :
    ∃ items, Spells d items ∧ ts = normalize items := by
  by_cases htext : ∃ t, d = .text t
  · obtain ⟨t, rfl⟩ := htext
    rw [readLanguages_ofText hlibrary] at h
    exact ⟨_, .text t, (Except.ok.inj h).symm⟩
  · have hlisted : listed d = d := by
      cases d with
      | text t => exact absurd ⟨t, rfl⟩ htext
      | _ => rfl
    rw [readLanguages, hlisted] at h
    cases hread : library.texts d with
    | error refused =>
      rw [hread] at h
      cases h
    | ok items =>
      rw [hread] at h
      refine ⟨items, ?_, (Except.ok.inj h).symm⟩
      rcases hlibrary.texts_ok d items hread with rfl | rfl
      · exact .list items
      · exact .tuple items

theorem readLanguages_error (d : Data) : readLanguages library d ≠ .error [] := by
  intro h
  rw [readLanguages] at h
  cases hread : library.texts (listed d) with
  | error refused =>
    rw [hread] at h
    obtain rfl : refused = [] := Except.error.inj h
    exact hlibrary.texts_error _ hread
  | ok items =>
    rw [hread] at h
    cases h

theorem readLanguages_list {ts : List Text} (h : IsNormal ts) : readLanguages library (.ofTexts ts) = .ok ts := by
  rw [readLanguages_ofTexts hlibrary, normalize_eq_self h]

theorem readLanguages_text {ts : List Text} (h : IsNormal ts) (hcomma : ∀ t ∈ ts, (',' : Code) ∉ t) :
    readLanguages library (.text (Text.joinWith "," ts)) = .ok ts := by
  rw [readLanguages_ofText hlibrary]
  cases ts with
  | nil => rfl
  | cons t ts =>
    exact congrArg Except.ok ((congrArg normalize (Text.splitOn_join (by simp) hcomma)).trans (normalize_eq_self h))

end

end MessageCatalog.Settings
