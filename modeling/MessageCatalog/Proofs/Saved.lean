/-
  MessageCatalog.Proofs.Saved — references that can be written to a file.

  A file holds texts of Unicode characters only. The keys of a reference are ASCII, its
  texts come from the sources, and a group has the name that a source gives its plugin, or
  one that is cut out of the path. So only one thing can keep the reference of proper
  sources from being saved: an escape that names a surrogate, since each escape is decoded
  by itself, also where two of them stand for one character.

  Proved: what is extracted has no other surrogates than those that escapes of its source
  name, and a reference is saved if and only if it has none (`save_built`). A pair of escapes
  for one character is read as two surrogates, and the reference is lost
  (`save_built_differs`).
-/

import MessageCatalog.Proofs.Diagnostics
import MessageCatalog.Proofs.Extraction.Sourced
import MessageCatalog.Proofs.Plugin

namespace MessageCatalog

open Text.Utf8 (isUnicode)

theorem Text.isScalar_subset {s t : Text} (ht : t.isScalar = true) (h : s ⊆ t) : s.isScalar = true :=
  List.all_eq_true.2 fun c hc => List.all_eq_true.1 ht c (h hc)

/-! ## Names from paths -/

namespace Plugin

variable {path name : Text}

theorem splitOn_subset (c : Code) (t : Text) : ∀ p ∈ Text.splitOn c t, p ⊆ t := by
  induction t with
  | nil => exact List.forall_mem_singleton.2 (List.nil_subset [])
  | cons d r ih =>
    have hmore : ∀ {p : Text}, p ⊆ r → p ⊆ d :: r := fun h => List.subset_cons_of_subset d h
    rw [Text.splitOn]
    split
    · rename_i piece rest hsplit
      rw [hsplit] at ih
      obtain ⟨hpiece, hrest⟩ := List.forall_mem_cons.1 ih
      split
      · exact List.forall_mem_cons.2 ⟨List.nil_subset _, fun p hp => hmore (ih p hp)⟩
      · refine List.forall_mem_cons.2 ⟨?_, fun p hp => hmore (hrest p hp)⟩
        exact List.cons_subset.2 ⟨List.mem_cons_self, hmore hpiece⟩
    · exact List.forall_mem_singleton.2 (List.cons_subset.2 ⟨List.mem_cons_self, List.nil_subset _⟩)

theorem components_scalar (h : path.isScalar = true) : ∀ p ∈ components path, p.isScalar = true := by
  have hslashes : Text.isScalar (path.map fun (c : Code) => if c == '\\' then Char.toNat '/' else c) = true := by
    refine List.all_eq_true.2 fun d hd => ?_
    obtain ⟨c, hc, rfl⟩ := List.mem_map.1 hd
    split
    · rfl
    · exact List.all_eq_true.1 h c hc
  exact fun p hp => Text.isScalar_subset hslashes (splitOn_subset _ _ p hp)

theorem ofPath?_scalar (hpath : path.isScalar = true) (h : ofPath? path = some name) : name.isScalar = true := by
  obtain ⟨p, hp, rfl⟩ := Option.map_eq_some_iff.1 h
  have hcomponent : p ∈ components path := by
    simp only [Option.orElse_eq_orElse, Option.orElse_eq_or, Option.or_eq_some_iff] at hp
    rcases hp with hp | ⟨-, hp | ⟨-, hp⟩⟩
    · obtain ⟨before, root, workspace, plugins, after, hcs, -⟩ := belowWorkspace_split hp
      rw [hcs]
      simp
    · exact (List.dropLast_sublist _).subset (belowTranslations_split hp).1
    · exact (List.dropLast_sublist _).subset (directories_subset (nearestDirectory_directory hp)).1
  have hstripped : stripVariant p ⊆ p := by
    unfold stripVariant Text.dropEnd?
    split
    · exact List.take_subset _ p
    · exact fun c hc => hc
  exact Text.isScalar_subset (components_scalar hpath p hcomponent) hstripped

end Plugin

/-! ## Texts from sources -/

namespace Extraction

def Extracted.texts (x : Extracted) : List Text := x.keys.entries.map (·.2) ++ x.plugin.toList

theorem Extracted.Sourced.held {path source : Text} {x : Extracted} (h : x.Sourced path source) :
    ∀ t ∈ x.texts, Literal.AllHeld source t := by
  intro t ht
  rcases List.mem_append.1 ht with ht | ht
  · obtain ⟨e, he, rfl⟩ := List.mem_map.1 ht
    exact h.texts e he
  · exact h.plugin t (Option.mem_toList.1 ht)

section

variable {parser : TypeScript.Parser} (hparser : parser.Faithful)
include hparser

/-- A surrogate in a text that is gathered from Unicode characters is named by an escape. -/
theorem extract_named (limits : Limits) (path : Text) {source : Text} (hsource : source.isScalar = true) :
    ∀ t ∈ (extract limits path source parser).value.texts, ∀ c ∈ t, isUnicode c = true ∨ c ∈ Literal.surrogates source := by
  intro t ht c hc
  rcases (extract_sourced hparser limits path source).held t ht c hc with hself | hunicode | hnamed
  · exact .inl (List.all_eq_true.1 hsource c hself)
  · exact .inl hunicode
  · exact .inr hnamed

theorem extract_scalar (limits : Limits) (path : Text) {source : Text} (hsource : source.isScalar = true)
    (hescapes : Literal.surrogates source = []) :
    ∀ t ∈ (extract limits path source parser).value.texts, t.isScalar = true := by
  intro t ht
  refine List.all_eq_true.2 fun c hc => ?_
  rcases extract_named hparser limits path hsource t ht c hc with hunicode | hnamed
  · exact hunicode
  · rw [hescapes] at hnamed
    cases hnamed

end

end Extraction

open Extraction (Extracted)

/-! ## Merged tables -/

theorem Key.isScalar_of_isValid {k : Text} (h : isValid k = true) : k.isScalar = true := by
  have hcontinues : ∀ {c : Code}, continuesSegment c = true → isUnicode c = true := fun hc => by
    have hall : ∀ c < 128, isUnicode c = true := by decide +kernel
    exact hall _ (continuesSegment_lt hc)
  have hall : ∀ (k : Text) (fresh : Bool), accepts fresh k = true → k.all isUnicode = true := by
    intro k
    induction k with
    | nil => exact fun _ _ => rfl
    | cons c r ih =>
      intro fresh h
      rw [List.all_cons, Bool.and_eq_true]
      rw [accepts] at h
      split at h
      · rw [Bool.and_eq_true] at h
        exact ⟨hcontinues (continues_of_starts h.1), ih false h.2⟩
      · split at h
        · rename_i hdot
          exact ⟨by rw [hdot]; rfl, ih true h⟩
        · rw [Bool.and_eq_true] at h
          exact ⟨hcontinues h.1, ih false h.2⟩
  exact hall k true h

namespace GroupTable

/-- Keys and texts are of Unicode characters. -/
structure ScalarTexts (table : Table Text Text) : Prop where
  keys : ∀ k ∈ table.keys, k.isScalar = true
  texts : ∀ e ∈ table.entries, e.2.isScalar = true

theorem ScalarTexts.empty : ScalarTexts .empty :=
  ⟨fun _ hk => absurd hk List.not_mem_nil, fun _ he => absurd he List.not_mem_nil⟩

theorem ScalarTexts.insertAll {t u : Table Text Text} (ht : ScalarTexts t) (hu : ScalarTexts u) :
    ScalarTexts (t.insertAll u.entries) where
  keys := Table.forall_key_insertAll ht.keys fun e he => hu.keys e.1 (List.mem_map_of_mem he)
  texts := Table.forall_value_insertAll (p := fun v : Text => v.isScalar = true) ht.texts hu.texts

theorem next_scalarTexts {t : GroupTable} (ht : ∀ g ∈ t.groups.entries, ScalarTexts g.2) {x : Extracted}
    (hx : ScalarTexts x.keys) : ∀ g ∈ (t.next x).groups.entries, ScalarTexts g.2 := by
  rcases next_cases t x with ⟨-, reason, hskip⟩ | ⟨g, -, -, -, hgroups, -, -⟩
  · rw [hskip]
    exact ht
  · have hold : ScalarTexts ((t.groups.get? g).getD .empty) := by
      cases htable : t.groups.get? g with
      | none => exact .empty
      | some table => exact ht (g, table) (Table.mem_of_get? htable)
    rw [hgroups]
    exact Table.forall_value_insert ht g (hold.insertAll hx)

variable {xs : List Extracted}

theorem mergeAll_scalarTexts (sampleSize : Int) (h : ∀ x ∈ xs, ScalarTexts x.keys) :
    ∀ g ∈ (Reference.mergeAll sampleSize xs).value.groups.entries, ScalarTexts g.2 := by
  rw [(mergeAll_run sampleSize xs).1]
  exact List.foldlRecOn (motive := fun t : GroupTable => ∀ g ∈ t.groups.entries, ScalarTexts g.2) xs next
    (fun _ hg => absurd hg List.not_mem_nil) fun t ht x hx => next_scalarTexts ht (h x hx)

/-- Every group is that of a file. -/
theorem mergeAll_names (sampleSize : Int) {p : Text → Prop} (h : ∀ x ∈ xs, ∀ g, groupName x = some g → p g) :
    ∀ g ∈ (Reference.mergeAll sampleSize xs).value.groups.keys, p g := by
  have hnames : ∀ g ∈ ((start sampleSize).groups.keySet.addAll (xs.filterMap target?)).toList, p g := by
    refine Distinct.forall_mem_addAll (fun _ hg => absurd hg List.not_mem_nil) fun g hg => ?_
    obtain ⟨x, hx, htarget⟩ := List.mem_filterMap.1 hg
    exact h x hx g (Option.filter_eq_some_iff.1 htarget).1
  rw [← groups_run, ← (mergeAll_run sampleSize xs).1] at hnames
  exact hnames

theorem isScalar_iff {t : GroupTable} (h : ∀ g ∈ t.groups.entries, ScalarTexts g.2) :
    t.isScalar = true ↔ ∀ g ∈ t.groups.keys, g.isScalar = true := by
  have htables : ∀ g ∈ t.groups.entries, (g.2.entries.all fun e => e.1.isScalar && e.2.isScalar) = true := by
    intro g hg
    obtain ⟨hkeys, htexts⟩ := h g hg
    refine List.all_eq_true.2 fun e he => ?_
    rw [hkeys e.1 (List.mem_map_of_mem he), htexts e he]
    rfl
  rw [isScalar, List.all_eq_true, Table.keys, List.forall_mem_map]
  refine forall₂_congr fun g hg => ?_
  rw [htables g hg, Bool.and_true]

end GroupTable

/-! ## Saving -/

namespace Reference

open Extraction (extract)

/-- The document can be written to a file. -/
def CanSave (path : Text) (d : Data) : Prop := ∃ file, (Document.save path d).run.value = .ok file

theorem canSave_iff (path : Text) (t : GroupTable) : CanSave path t.toData ↔ t.isScalar = true := by
  have hfits : Document.Fits {} t.toData := t.fits_toData (by decide)
  rw [← t.isScalar_toData_eq]
  exact (Document.save_iff t.isPlain_toData t.keyCount_toData path).trans (and_iff_right hfits)

section

variable {parser : TypeScript.Parser} (hparser : parser.Faithful) (limits : Limits) {s : Source}
  (htext : s.text.isScalar = true) (hescapes : Literal.surrogates s.text = [])

include hparser htext hescapes

theorem scalarTexts_extract : GroupTable.ScalarTexts (extract limits s.path s.text parser).value.keys where
  keys k hk := Key.isScalar_of_isValid ((Extraction.extract_valid limits s.path s.text parser).valid k hk)
  texts e he :=
    Extraction.extract_scalar hparser limits s.path htext hescapes e.2 (List.mem_append_left _ (List.mem_map_of_mem he))

theorem groupName_extract (hpath : s.path.isScalar = true) {g : Text}
    (hg : GroupTable.groupName (extract limits s.path s.text parser).value = some g) : g.isScalar = true := by
  unfold GroupTable.groupName at hg
  split at hg
  · rename_i c r hplugin
    rw [← Option.some.inj hg]
    refine Extraction.extract_scalar hparser limits s.path htext hescapes _ (List.mem_append_right _ ?_)
    exact Option.mem_toList.2 hplugin
  · rw [(Extraction.extract_sourced hparser limits s.path s.text).file] at hg
    exact Plugin.ofPath?_scalar hpath hg

end

/-- Under any limits the texts of a source of Unicode characters are made of such characters
and of surrogates that escapes in the source name. A reference is saved if and only if it has
no surrogate. If no escape names one, no text has one, and nothing but the name of a group,
where a path tells it, can keep the reference from being saved. -/
theorem save_built {parser : TypeScript.Parser} (hparser : parser.Faithful) (settings : Settings)
    (sources : List Source) (path : Text) (htexts : ∀ s ∈ sources, s.text.isScalar = true) :
    (∀ s ∈ sources, ∀ limits, ∀ t ∈ (extract limits s.path s.text parser).value.texts, ∀ c ∈ t,
        isUnicode c = true ∨ c ∈ Literal.surrogates s.text) ∧
      ∃ r : Reference, (build settings sources parser).run.value = .ok r ∧
        r.results = (sources.map fun s => (extract settings.limits s.path s.text parser).value) ∧
        (CanSave path r.table.toData ↔ r.table.isScalar = true) ∧
        ((∀ s ∈ sources, Literal.surrogates s.text = []) →
          (∀ x ∈ r.results, ∀ t ∈ x.texts, t.isScalar = true) ∧
            (CanSave path r.table.toData ↔ ∀ g ∈ r.table.groups.keys, g.isScalar = true) ∧
            ((∀ s ∈ sources, s.path.isScalar = true) → CanSave path r.table.toData)) := by
  refine ⟨fun s hs limits => Extraction.extract_named hparser limits s.path (htexts s hs), ?_⟩
  refine ⟨_, value_build settings sources parser, value_extractAll _ _ _, canSave_iff path _, fun hescapes => ?_⟩
  rw [value_extractAll]
  have htables := GroupTable.mergeAll_scalarTexts settings.sampleSize
    (List.forall_mem_map.2 fun s hs => scalarTexts_extract hparser settings.limits (htexts s hs) (hescapes s hs))
  have hsaved := (canSave_iff path _).trans (GroupTable.isScalar_iff htables)
  refine ⟨List.forall_mem_map.2 fun s hs => ?_, hsaved, fun hpaths => hsaved.2 ?_⟩
  · exact Extraction.extract_scalar hparser _ _ (htexts s hs) (hescapes s hs)
  · exact GroupTable.mergeAll_names settings.sampleSize (List.forall_mem_map.2 fun s hs g hg =>
      groupName_extract hparser settings.limits (htexts s hs) (hescapes s hs) (hpaths s hs) hg)

def defining (message : Text) : Source :=
  ⟨"a.ts", "createTranslationRef(\x7bid:'p',messages:\x7ba:'" ++ message ++ "'\x7d\x7d)"⟩

def gathered (s : Source) (root : TypeScript.Node) : Extracted :=
  (Extraction.gatherTree { file := s.path } root).value.result

/-- A character outside the basic plane as one escape: it is kept. -/
theorem save_built_sample :
    (∀ t ∈ (extract {} "a.ts" (defining "\\u\x7b1F600\x7d").text).value.texts, ∀ c ∈ t,
        isUnicode c = true ∨ c ∈ Literal.surrogates (defining "\\u\x7b1F600\x7d").text) ∧
      ∃ r : Reference, (build {} [defining "\\u\x7b1F600\x7d"]).run.value = .ok r ∧
        r.results.map (·.texts) = [[[0x1F600], ("p" : Text)]] ∧ CanSave "ref.json" r.table.toData := by
  obtain ⟨root, hroot, htexts⟩ : ∃ root,
      TypeScript.parse (Extraction.allowsElements "a.ts") (defining "\\u\x7b1F600\x7d").text = some root ∧
        (gathered (defining "\\u\x7b1F600\x7d") root).texts = [[0x1F600], ("p" : Text)] :=
    TypeScript.parse_satisfies 300 _ (by decide +kernel)
  obtain ⟨hnamed, r, hr, -, -, hclean⟩ := save_built TypeScript.parse_faithful {} [defining "\\u\x7b1F600\x7d"] "ref.json"
    (List.forall_mem_singleton.2 (by decide +kernel))
  obtain ⟨-, -, hsaved⟩ := hclean (List.forall_mem_singleton.2 (by decide +kernel))
  have hbuilt := value_build_tree {} hroot
  rw [hr] at hbuilt
  refine ⟨hnamed _ List.mem_cons_self {}, r, hr, ?_, hsaved (List.forall_mem_singleton.2 (by decide +kernel))⟩
  rw [Except.ok.inj hbuilt]
  exact congrArg (fun t => [t]) htexts

/-- The same character as two escapes: they are read as two surrogates, and the reference
cannot be saved. -/
theorem save_built_differs : (defining "\\uD83D\\uDE00").text.isScalar = true ∧ ∃ r : Reference,
    (build {} [defining "\\uD83D\\uDE00"]).run.value = .ok r ∧
      r.results.map (·.texts) = [[[0xD83D, 0xDE00], ("p" : Text)]] ∧
      ∀ path, ¬ CanSave path r.table.toData := by
  obtain ⟨root, hroot, htexts, hscalar⟩ : ∃ root,
      TypeScript.parse (Extraction.allowsElements "a.ts") (defining "\\uD83D\\uDE00").text = some root ∧
        (gathered (defining "\\uD83D\\uDE00") root).texts = [[0xD83D, 0xDE00], ("p" : Text)] ∧
        (mergeAll 5 [gathered (defining "\\uD83D\\uDE00") root]).value.isScalar = false :=
    TypeScript.parse_satisfies 300 _ (by decide +kernel)
  refine ⟨by decide +kernel, _, value_build_tree {} hroot, congrArg (fun t => [t]) htexts, fun path hsaved => ?_⟩
  exact Bool.false_ne_true (hscalar.symm.trans ((canSave_iff path _).1 hsaved))

end Reference

end MessageCatalog
