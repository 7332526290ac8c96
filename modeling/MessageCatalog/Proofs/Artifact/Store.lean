/-
  MessageCatalog.Proofs.Artifact.Store — a directory of artifacts and the store read from it.

  A file gives an entry or none, whatever the other files are, and the store is the table
  of those entries, written in the order of the names. So what a language has comes from its
  last file, its place from its first, and a file that gives no entry could as well not be
  there. Only a file that is nested deeper than there is room for ends the loading.

  Proved: where no file is nested too deep, the store of a directory says for every language what
  its last usable file says, and nothing else; where one is, there is none (`load_directory`).
  In which order the files are listed does not matter (`load_listing`). A directory in which one
  file of open brackets is enough to load nothing is `load_directory_deep`.
-/

import MessageCatalog.Artifact.Store
import MessageCatalog.Proofs.Artifact.KeySet
import MessageCatalog.Proofs.File
import MessageCatalog.Proofs.Json.Nesting

namespace MessageCatalog.Artifact

/-! ## Names -/

def Format.suffix : Format → Text
  | .typeScript => "ts"
  | .json => "json"

theorem formatOf?_iff {suffix : Text} {format : Format} :
    formatOf? suffix = some format ↔ suffix = format.suffix := by
  rw [formatOf?]
  by_cases hts : suffix = "ts"
  · rw [if_pos hts, hts]
    cases format <;> decide
  by_cases hjson : suffix = "json"
  · rw [if_neg hts, if_pos hjson, hjson]
    cases format <;> decide
  · rw [if_neg hts, if_neg hjson]
    cases format
    · exact ⟨nofun, fun h => absurd h hts⟩
    · exact ⟨nofun, fun h => absurd h hjson⟩

structure IsMain (t : Text) : Prop where
  letters : t.all Text.isLower = true
  atLeast : 2 ≤ t.length
  atMost : t.length ≤ 3

structure IsVariant (t : Text) : Prop where
  letters : t.all Text.isLetter = true
  atLeast : 2 ≤ t.length
  atMost : t.length ≤ 4

/-- A language, and behind a mark its variant, if it has one. -/
inductive LanguageCode : Text → Prop
  | alone {t : Text} (main : IsMain t) : LanguageCode t
  | marked {t rest : Text} {mark : Code} (main : IsMain t) (mark_eq : mark = '-' ∨ mark = '_')
      (variant : IsVariant rest) : LanguageCode (t ++ mark :: rest)

theorem isLower_mark {mark : Code} (h : mark = '-' ∨ mark = '_') : Text.isLower mark = false := by
  rcases h with rfl | rfl <;> decide

theorem isLanguageCode_alone {t : Text} (hlower : t.all Text.isLower = true) :
    isLanguageCode t = true ↔ 2 ≤ t.length ∧ t.length ≤ 3 := by
  have hmain : t.takeWhile Text.isLower = t := by
    rw [← List.append_nil t, List.takeWhile_append_of_pos (List.all_eq_true.1 hlower), List.takeWhile_nil]
  rw [isLanguageCode]
  simp only [hmain, List.drop_length, Bool.and_true, Bool.and_eq_true, decide_eq_true_eq]

/-- The language ends where the small letters do. -/
theorem isLanguageCode_marked {t rest : Text} {mark : Code} (hlower : t.all Text.isLower = true)
    (hmark : Text.isLower mark = false) :
    isLanguageCode (t ++ mark :: rest) = true ↔
      (2 ≤ t.length ∧ t.length ≤ 3) ∧ (mark = '-' ∨ mark = '_') ∧ IsVariant rest := by
  have hmain : (t ++ mark :: rest).takeWhile Text.isLower = t := by
    rw [List.takeWhile_append_of_pos (List.all_eq_true.1 hlower),
      List.takeWhile_cons_of_neg (Bool.eq_false_iff.1 hmark), List.append_nil]
  rw [isLanguageCode]
  simp only [hmain, List.drop_left, Bool.and_eq_true, Bool.or_eq_true, decide_eq_true_eq, beq_iff_eq]
  exact and_congr_right fun _ => ⟨fun ⟨⟨⟨hm, least⟩, most⟩, letters⟩ => ⟨hm, letters, least, most⟩,
    fun ⟨hm, h⟩ => ⟨⟨⟨hm, h.atLeast⟩, h.atMost⟩, h.letters⟩⟩

theorem isLanguageCode_iff {t : Text} : isLanguageCode t = true ↔ LanguageCode t := by
  constructor
  · intro h
    have hlower : (t.takeWhile Text.isLower).all Text.isLower = true := List.all_takeWhile
    have hsplit : t.takeWhile Text.isLower ++ t.dropWhile Text.isLower = t := List.takeWhile_append_dropWhile
    have hhead := List.head?_dropWhile_not Text.isLower t
    rw [← hsplit] at h ⊢
    cases hrest : t.dropWhile Text.isLower with
    | nil =>
      rw [hrest, List.append_nil, isLanguageCode_alone hlower] at h
      rw [List.append_nil]
      exact .alone ⟨hlower, h.1, h.2⟩
    | cons mark rest =>
      rw [hrest] at h hhead
      rw [isLanguageCode_marked hlower (by simpa using hhead)] at h
      obtain ⟨⟨least, most⟩, mark_eq, variant⟩ := h
      exact .marked ⟨hlower, least, most⟩ mark_eq variant
  · intro h
    cases h with
    | alone main => exact (isLanguageCode_alone main.letters).2 ⟨main.atLeast, main.atMost⟩
    | marked main mark_eq variant =>
      exact (isLanguageCode_marked main.letters (isLower_mark mark_eq)).2
        ⟨⟨main.atLeast, main.atMost⟩, mark_eq, variant⟩

theorem LanguageCode.ne_nil {t : Text} (h : LanguageCode t) : t ≠ [] := by
  rintro rfl
  exact absurd (isLanguageCode_iff.2 h) (by decide)

/-- A language that an artifact can be of. -/
structure Deployable (reference language : Text) : Prop where
  code : LanguageCode language
  not_reference : language ≠ reference
  not_ref : language ≠ "ref"
  not_index : language ≠ "index"

theorem deployable_iff {reference language : Text} :
    (language == reference || referenceStems.contains language || !isLanguageCode language) = false ↔
      Deployable reference language := by
  have hstems : referenceStems.contains language = false ↔ language ≠ "ref" ∧ language ≠ "index" := by
    simp [referenceStems, ← Bool.not_eq_true]
  rw [Bool.or_eq_false_iff, Bool.or_eq_false_iff, Bool.not_eq_false', isLanguageCode_iff, hstems, beq_eq_false_iff_ne]
  exact ⟨fun ⟨⟨h, hr, hi⟩, hc⟩ => ⟨hc, h, hr, hi⟩, fun ⟨hc, h, hr, hi⟩ => ⟨⟨h, hr, hi⟩, hc⟩⟩

theorem splitName_append {stem suffix : Text} (hstem : stem ≠ []) (hsuffix : suffix ≠ [])
    (hpoint : ('.' : Code) ∉ suffix) : splitName (stem ++ ('.' : Code) :: suffix) = (stem, suffix) := by
  have hempty : (stem.isEmpty || suffix.isEmpty) = false := by simp [hstem, hsuffix]
  simp only [splitName, Text.cutLast_append stem hpoint, hempty, Bool.false_eq_true, if_false]

theorem splitName_join {name stem suffix : Text} (h : splitName name = (stem, suffix)) (hsuffix : suffix ≠ []) :
    stem ++ ('.' : Code) :: suffix = name := by
  by_cases hwhole : ((Text.cutLast '.' name).1.isEmpty || (Text.cutLast '.' name).2.isEmpty) = true
  · simp only [splitName, if_pos hwhole, Prod.mk.injEq] at h
    exact absurd h.2.symm hsuffix
  · have hpoint : ('.' : Code) ∈ name := by
      refine Decidable.byContradiction fun hpoint => hwhole ?_
      rw [Text.cutLast, if_neg hpoint]
      rfl
    have hjoin := Text.cutLast_join hpoint
    simp only [splitName, if_neg hwhole, Prod.mk.injEq] at h
    rwa [h.1, h.2] at hjoin

theorem Format.suffix_ne_nil (f : Format) : f.suffix ≠ [] := by
  cases f <;> decide

/-- Artifacts are the files named for a language, with the suffix of a format. -/
theorem languageOf?_iff {reference name language : Text} {format : Format} :
    languageOf? reference name = some (language, format) ↔
      Deployable reference language ∧ name = language ++ ('.' : Code) :: format.suffix := by
  constructor
  · intro h
    cases hsplit : splitName name with
    | mk stem suffix =>
      rw [languageOf?, hsplit] at h
      obtain ⟨f, hformat, h⟩ := Option.bind_eq_some_iff.1 h
      rw [formatOf?_iff] at hformat
      split at h
      · cases h
      · rename_i hdeployable
        cases h
        rw [hformat] at hsplit
        exact ⟨deployable_iff.1 (Bool.eq_false_iff.2 hdeployable),
          (splitName_join hsplit format.suffix_ne_nil).symm⟩
  · rintro ⟨hdeployable, rfl⟩
    have hpoint : ('.' : Code) ∉ format.suffix := by cases format <;> decide
    have hformat : formatOf? format.suffix = some format := formatOf?_iff.2 rfl
    simp only [languageOf?, splitName_append hdeployable.code.ne_nil format.suffix_ne_nil hpoint, hformat,
      Option.bind_eq_bind, Option.bind_some, deployable_iff.2 hdeployable, Bool.false_eq_true, if_false]

/-! ## Reading -/

section

variable (host : Host) (limits : Limits)

/-- Why a file gives no keys. -/
inductive Unusable : Format → File → Prop
  | directory {format : Format} : Unusable format .directory
  | undecodable {format : Format} {content : Text.Utf8.Octets} (h : Text.Utf8.decode content = none) :
      Unusable format (.octets content)
  | malformed {file : File} {t : Text} (content : File.readText (some file) = .ok t) {refusal : Json.Refusal}
      (h : Json.readOn host t = .error refusal) (shallow : refusal ≠ .tooDeep) : Unusable .json file
  | tooLarge {file : File} {t literal : Text} (content : File.readText (some file) = .ok t)
      (found : messages? t = some literal) (h : limits.maxContentLength < literal.length) :
      Unusable .typeScript file

/-- Why a file ends the loading. -/
inductive Overflowing : Format → File → Prop
  | json {file : File} {t : Text} (content : File.readText (some file) = .ok t)
      (h : Json.readOn host t = .error .tooDeep) : Overflowing .json file
  | typeScript {file : File} {t literal : Text} (content : File.readText (some file) = .ok t)
      (found : messages? t = some literal) (size : literal.length ≤ limits.maxContentLength)
      (h : Literal.Overflows host limits [] literal) : Overflowing .typeScript file

/-- What becomes of a file, and why. -/
inductive Reads (format : Format) (file : File) : Except Fault (Option (List Text)) → Prop
  | keys (keys : List Text) : Reads format file (.ok (some keys))
  | unusable (h : Unusable host limits format file) : Reads format file (.ok none)
  | overflowing (h : Overflowing host limits format file) : Reads format file (.error (.plain .tooDeep))

end

section

variable {host : Host} {limits : Limits} {format : Format} {file : File}

theorem readText_error {cause : Cause} (h : File.readText (some file) = .error cause) :
    file = .directory ∨ ∃ content, file = .octets content ∧ Text.Utf8.decode content = none := by
  cases file with
  | directory => exact .inl rfl
  | octets content =>
    rw [File.readText] at h
    cases hdecode : Text.Utf8.decode content with
    | none => exact .inr ⟨content, rfl, hdecode⟩
    | some t =>
      rw [hdecode] at h
      cases h

theorem keySet_cases (host : Host) (limits : Limits) (t : Text) :
    (∃ keys, (keySet limits t host).run.value = .ok keys) ∨
      ∃ literal, messages? t = some literal ∧
        (limits.maxContentLength < literal.length ∧
            (keySet limits t host).run.value =
              .error (.literalTooLarge limits.maxContentLength literal.length) ∨
          literal.length ≤ limits.maxContentLength ∧ Literal.Overflows host limits [] literal ∧
            (keySet limits t host).run.value = .error (.plain .tooDeep)) := by
  cases hfound : messages? t with
  | none => exact .inl ⟨[], by rw [keySet, hfound]; rfl⟩
  | some literal =>
    rw [value_keySet host limits hfound]
    rcases Literal.flattenOn_cases host limits [] literal with ⟨hlong, hf⟩ | ⟨hlen, hover, hf⟩ | ⟨-, -, f, hf⟩
    · exact .inr ⟨literal, rfl, .inl ⟨hlong, by rw [hf]; rfl⟩⟩
    · exact .inr ⟨literal, rfl, .inr ⟨hlen, hover, by rw [hf]; rfl⟩⟩
    · exact .inl ⟨f.entries.keys, by rw [hf]; rfl⟩

theorem reads_text {t : Text} (content : File.readText (some file) = .ok t) (path : Text) :
    Reads host limits format file (keysOfText host limits path format t).run.value := by
  cases format with
  | json =>
    cases hread : Json.readOn host t with
    | ok d =>
      rw [keysOfText, hread]
      exact .keys (jsonKeys d)
    | error refusal =>
      rw [keysOfText, hread]
      cases refusal with
      | tooDeep => exact .overflowing (.json content hread)
      | malformed | longInteger => exact .unusable (.malformed content hread nofun)
  | typeScript =>
    rw [keysOfText, Attempt.value_bind, Attempt.value_ofLogged]
    rcases keySet_cases host limits t with ⟨keys, hkeys⟩ | ⟨literal, hfound, ⟨hlong, hkeys⟩ | ⟨hlen, hover, hkeys⟩⟩
    · rw [hkeys]
      exact .keys keys
    · rw [hkeys]
      exact .unusable (.tooLarge content hfound hlong)
    · rw [hkeys]
      exact .overflowing (.typeScript content hfound hlen hover)

theorem reads_file (host : Host) (limits : Limits) (path : Text) (format : Format) (file : File) :
    Reads host limits format file (readKeys host limits path format file).run.value := by
  rw [readKeys]
  cases hcontent : File.readText (some file) with
  | ok t => exact reads_text hcontent path
  | error cause =>
    rcases readText_error hcontent with rfl | ⟨content, rfl, hdecode⟩
    · exact .unusable .directory
    · exact .unusable (.undecodable hdecode)

theorem value_readKeys {t : Text} (content : File.readText (some file) = .ok t) (path : Text) :
    (readKeys host limits path format file).run.value = (keysOfText host limits path format t).run.value := by
  rw [readKeys, content]

theorem value_unusable (h : Unusable host limits format file) (path : Text) :
    (readKeys host limits path format file).run.value = .ok none := by
  cases h with
  | directory => rfl
  | undecodable hdecode =>
    rw [readKeys, File.readText, hdecode]
    rfl
  | malformed content hread shallow =>
    rename_i refusal
    rw [value_readKeys content, keysOfText, hread]
    cases refusal with
    | tooDeep => exact absurd rfl shallow
    | malformed | longInteger => rfl
  | tooLarge content hfound hlong =>
    rw [value_readKeys content, keysOfText, Attempt.value_bind, Attempt.value_ofLogged,
      value_keySet host limits hfound, Literal.flattenOn_tooLarge hlong]
    rfl

theorem value_overflowing (h : Overflowing host limits format file) (path : Text) :
    (readKeys host limits path format file).run.value = .error (.plain .tooDeep) := by
  cases h with
  | json content hread =>
    rw [value_readKeys content, keysOfText, hread]
    rfl
  | typeScript content hfound hlen hover =>
    rw [value_readKeys content, keysOfText, Attempt.value_bind, Attempt.value_ofLogged,
      value_keySet host limits hfound, Literal.flattenOn_overflow hlen hover]
    rfl

end

/-! ## Entries -/

section

variable (host : Host) (limits : Limits) (reference directory : Text)

/-- `entry` is an artifact of `language`, and `keys` are what it says alone. -/
def Yields (entry : Text × File) (language : Text) (keys : List Text) : Prop :=
  Deployable reference language ∧ ∃ format : Format,
    entry.1 = language ++ ('.' : Code) :: format.suffix ∧
      (readKeys host limits (directory ++ "/" ++ entry.1) format entry.2).run.value = .ok (some keys)

/-- The entry of the store that a file gives. -/
def yield? (entry : Text × File) : Option (Text × Deployed) :=
  (languageOf? reference entry.1).bind fun named =>
    match (readKeys host limits (directory ++ "/" ++ entry.1) named.2 entry.2).run.value with
    | .ok (some keys) => some (named.1, ⟨entry.1, keys⟩)
    | _ => none

/-- A file that gives nothing: if it is named as an artifact, it is of no use. -/
def Idle (entry : Text × File) : Prop :=
  ∀ language format, Deployable reference language → entry.1 = language ++ ('.' : Code) :: format.suffix →
    Unusable host limits format entry.2

/-- An artifact that ends the loading. -/
def Ends (entry : Text × File) : Prop :=
  ∃ language format, Deployable reference language ∧ entry.1 = language ++ ('.' : Code) :: format.suffix ∧
    Overflowing host limits format entry.2

end

variable {host : Host} {limits : Limits} {reference directory : Text}

theorem yield?_iff {entry : Text × File} {language : Text} {d : Deployed} :
    yield? host limits reference directory entry = some (language, d) ↔
      Yields host limits reference directory entry language d.keys ∧ d.fileName = entry.1 := by
  constructor
  · intro h
    obtain ⟨⟨l, format⟩, hlanguage, h⟩ := Option.bind_eq_some_iff.1 h
    obtain ⟨hdeployable, hname⟩ := languageOf?_iff.1 hlanguage
    dsimp only at h
    split at h
    · rename_i keys hkeys
      cases h
      exact ⟨⟨hdeployable, format, hname, hkeys⟩, rfl⟩
    · cases h
  · rintro ⟨⟨hdeployable, format, hname, hkeys⟩, hfile⟩
    rw [yield?, languageOf?_iff.2 ⟨hdeployable, hname⟩, Option.bind_some, hkeys, ← hfile]

theorem yield?_idle {entry : Text × File} (h : Idle host limits reference entry) :
    yield? host limits reference directory entry = none := by
  refine Option.eq_none_iff_forall_not_mem.2 fun ⟨language, d⟩ hyield => ?_
  obtain ⟨⟨hdeployable, format, hname, hkeys⟩, -⟩ := yield?_iff.1 hyield
  rw [value_unusable (h language format hdeployable hname)] at hkeys
  cases hkeys

/-! ## The order of visits -/

theorem Store.nameLe_iff {a b : Text × File} : Store.nameLe a b = true ↔ ¬ b.1 < a.1 := by
  rw [Store.nameLe, decide_eq_true_eq]

theorem Store.pairwise_sort (files : List (Text × File)) :
    (files.mergeSort Store.nameLe).Pairwise fun a b => ¬ b.1 < a.1 := by
  have hsorted : (files.mergeSort Store.nameLe).Pairwise fun a b => Store.nameLe a b = true := by
    refine List.pairwise_mergeSort (fun a b c hab hbc => ?_) (fun a b => ?_) files
    · rw [Store.nameLe_iff] at hab hbc ⊢
      exact List.not_lt.2 (List.le_trans (List.not_lt.1 hab) (List.not_lt.1 hbc))
    · rw [Bool.or_eq_true, Store.nameLe_iff, Store.nameLe_iff]
      exact (List.le_total a.1 b.1).imp List.not_lt.2 List.not_lt.2
  exact hsorted.imp Store.nameLe_iff.1

/-- Files in the order of their names, no name twice, are what sorting makes of them. -/
theorem Store.sort_eq {files sorted : List (Text × File)} (hperm : sorted.Perm files)
    (hdistinct : ∀ a ∈ files, ∀ b ∈ files, a.1 = b.1 → a = b) (hsorted : sorted.Pairwise fun a b => ¬ b.1 < a.1) :
    files.mergeSort Store.nameLe = sorted := by
  have hsort := List.mergeSort_perm files Store.nameLe
  refine List.Perm.eq_of_pairwise (fun a b ha hb hab hba => ?_) (Store.pairwise_sort files) hsorted
    (hsort.trans hperm.symm)
  exact hdistinct a (hsort.mem_iff.1 ha) b (hperm.mem_iff.1 hb) (List.le_antisymm (List.not_lt.1 hab) (List.not_lt.1 hba))

/-! ## The store -/

theorem Store.ext {s u : Store} (h : s.languages = u.languages) : s = u := by
  cases s
  cases u
  exact congrArg Store.mk h

theorem Store.visit_languages (s : Store) {entry : Text × File} (h : ¬ Ends host limits reference entry) :
    (Store.visit host limits reference directory s entry).run.value =
      .ok ⟨s.languages.insertAll (yield? host limits reference directory entry).toList⟩ := by
  rw [Store.visit, yield?]
  cases hlanguage : languageOf? reference entry.1 with
  | none => rfl
  | some named =>
    obtain ⟨language, format⟩ := named
    obtain ⟨hdeployable, hname⟩ := languageOf?_iff.1 hlanguage
    have hreads := reads_file host limits (directory ++ "/" ++ entry.1) format entry.2
    simp only [Attempt.value_bind, Option.bind_some]
    generalize (readKeys host limits (directory ++ "/" ++ entry.1) format entry.2).run.value = outcome at hreads ⊢
    cases hreads with
    | keys keys => rfl
    | unusable _ => rfl
    | overflowing hover => exact absurd ⟨language, format, hdeployable, hname, hover⟩ h

theorem Store.visit_ends (s : Store) {entry : Text × File} (h : Ends host limits reference entry) :
    (Store.visit host limits reference directory s entry).run.value = .error (.plain .tooDeep) := by
  obtain ⟨language, format, hdeployable, hname, hover⟩ := h
  rw [Store.visit, languageOf?_iff.2 ⟨hdeployable, hname⟩]
  simp only [Attempt.value_bind, value_overflowing hover]
  rfl

theorem Store.foldlM_visit (s : Store) {files : List (Text × File)}
    (h : ∀ entry ∈ files, ¬ Ends host limits reference entry) :
    (files.foldlM (Store.visit host limits reference directory) s).run.value =
      .ok ⟨s.languages.insertAll (files.filterMap (yield? host limits reference directory))⟩ := by
  induction files generalizing s with
  | nil => rfl
  | cons entry files ih =>
    obtain ⟨hentry, hfiles⟩ := List.forall_mem_cons.1 h
    rw [List.foldlM_cons, Attempt.value_bind, Store.visit_languages s hentry, Except.bind, ih _ hfiles,
      List.filterMap_cons]
    cases yield? host limits reference directory entry <;> rfl

/-- Whatever comes before and behind it, a file that ends the loading does so. -/
theorem Store.foldlM_ends (s : Store) {files : List (Text × File)}
    (h : ∃ entry ∈ files, Ends host limits reference entry) :
    (files.foldlM (Store.visit host limits reference directory) s).run.value = .error (.plain .tooDeep) := by
  induction files generalizing s with
  | nil =>
    obtain ⟨entry, hentry, -⟩ := h
    cases hentry
  | cons entry files ih =>
    rw [List.foldlM_cons, Attempt.value_bind]
    by_cases hfirst : Ends host limits reference entry
    · rw [Store.visit_ends s hfirst]
      rfl
    · obtain ⟨other, hother, hends⟩ := h
      have hrest : other ∈ files := (List.mem_cons.1 hother).resolve_left fun he => hfirst (he ▸ hends)
      rw [Store.visit_languages s hfirst]
      exact ih _ ⟨other, hrest, hends⟩

/-! ## A directory -/

section

variable (files : Table Text File)

def visited : List (Text × File) := files.entries.mergeSort Store.nameLe

def yielded (host : Host) (limits : Limits) (reference directory : Text) : List (Text × Deployed) :=
  (visited files).filterMap (yield? host limits reference directory)

end

variable {files : Table Text File}

theorem mem_visited_iff {entry : Text × File} : entry ∈ visited files ↔ entry ∈ files.entries :=
  (List.mergeSort_perm files.entries Store.nameLe).mem_iff

theorem pairwise_visited : (visited files).Pairwise fun a b => a.1 < b.1 := by
  have hnames : ((visited files).map (·.1)).Nodup :=
    ((List.mergeSort_perm files.entries Store.nameLe).map Prod.fst).nodup_iff.2 files.keys_nodup
  refine ((Store.pairwise_sort files.entries).and (List.pairwise_map.1 hnames)).imp fun ⟨hle, hne⟩ => ?_
  exact Decidable.byContradiction fun hlt => hne (List.le_antisymm (List.not_lt.1 hle) (List.not_lt.1 hlt))

theorem mem_yielded_iff {language : Text} {d : Deployed} :
    (language, d) ∈ yielded files host limits reference directory ↔
      ∃ entry ∈ files.entries, yield? host limits reference directory entry = some (language, d) := by
  rw [yielded, List.mem_filterMap]
  exact exists_congr fun entry => and_congr_left fun _ => mem_visited_iff

theorem pairwise_yielded (files : Table Text File) (host : Host) (limits : Limits) (reference directory : Text) :
    (yielded files host limits reference directory).Pairwise fun a b => a.2.fileName < b.2.fileName := by
  refine List.pairwise_filterMap.2 (pairwise_visited.imp fun {a b} hlt x hx y hy => ?_)
  rwa [(yield?_iff.1 hx).2, (yield?_iff.1 hy).2]

/-- What a language has is the entry of its last file. -/
theorem mem_ofList_yielded_iff {language : Text} {d : Deployed} :
    (language, d) ∈ (Table.ofList (yielded files host limits reference directory)).entries ↔
      (language, d) ∈ yielded files host limits reference directory ∧
        ∀ d', (language, d') ∈ yielded files host limits reference directory → ¬ d.fileName < d'.fileName := by
  have hsorted := pairwise_yielded files host limits reference directory
  generalize yielded files host limits reference directory = es at hsorted ⊢
  rw [Table.mem_ofList_iff]
  constructor
  · rintro ⟨front, back, rfl, hback⟩
    obtain ⟨-, -, hfront⟩ := List.pairwise_append.1 hsorted
    refine ⟨by simp, fun d' hd' => ?_⟩
    rcases List.mem_append.1 hd' with hd' | hd'
    · exact List.lt_asymm (hfront _ hd' _ List.mem_cons_self)
    rcases List.mem_cons.1 hd' with heq | hd'
    · rw [(Prod.mk.inj heq).2]
      exact List.lt_irrefl _
    · exact absurd rfl (hback _ hd')
  · rintro ⟨hd, hmost⟩
    obtain ⟨front, back, rfl⟩ := List.append_of_mem hd
    obtain ⟨-, hrest, -⟩ := List.pairwise_append.1 hsorted
    refine ⟨front, back, rfl, fun e he hkey => ?_⟩
    obtain ⟨l, d'⟩ := e
    obtain rfl : l = language := hkey
    have hlater : d.fileName < d'.fileName := (List.pairwise_cons.1 hrest).1 _ he
    exact hmost d' (by simp [he]) hlater

/-- Languages stand in the order of their first files. -/
theorem pairwise_languages :
    (Table.ofList (yielded files host limits reference directory)).keys.Pairwise fun l l' =>
      ∃ d, (l, d) ∈ yielded files host limits reference directory ∧
        ∀ d', (l', d') ∈ yielded files host limits reference directory → d.fileName < d'.fileName := by
  have hsorted := pairwise_yielded files host limits reference directory
  generalize yielded files host limits reference directory = es at hsorted ⊢
  rw [Table.keys_ofList]
  have hnodup : (dedup (es.map Prod.fst)).Nodup := (Distinct.ofList (es.map Prod.fst)).nodup
  refine ((Distinct.pairwise_dedup (es.map Prod.fst)).and hnodup).imp fun ⟨⟨front, back, hsplit, hfront⟩, hne⟩ => ?_
  obtain ⟨before, rest, rfl, hbefore, hrest⟩ := List.map_eq_append_iff.1 hsplit
  obtain ⟨first, after, rfl, rfl, -⟩ := List.map_eq_cons_iff.1 hrest
  obtain ⟨-, hafter, -⟩ := List.pairwise_append.1 hsorted
  refine ⟨first.2, by simp, fun d' hd' => ?_⟩
  rcases List.mem_append.1 hd' with hd' | hd'
  · exact absurd (hbefore ▸ List.mem_map_of_mem (f := (·.1)) hd') hfront
  rcases List.mem_cons.1 hd' with heq | hd'
  · rw [← heq] at hne
    exact absurd rfl hne
  · exact (List.pairwise_cons.1 hafter).1 _ hd'

/-- No file in the directory ends the loading. -/
def Loads (host : Host) (limits : Limits) (reference : Text) (files : List (Text × File)) : Prop :=
  ∀ entry ∈ files, ¬ Ends host limits reference entry

theorem value_load {listing : List (Text × File)} (h : Loads host limits reference listing) :
    (Store.load limits reference directory (some listing) host).run.value =
      .ok ⟨.ofList ((listing.mergeSort Store.nameLe).filterMap (yield? host limits reference directory))⟩ :=
  Store.foldlM_visit {} fun entry hentry => h entry ((List.mergeSort_perm listing Store.nameLe).mem_iff.1 hentry)

theorem value_load_ends {listing : List (Text × File)} {entry : Text × File} (hentry : entry ∈ listing)
    (h : Ends host limits reference entry) :
    (Store.load limits reference directory (some listing) host).run.value = .error (.plain .tooDeep) :=
  Store.foldlM_ends {} ⟨entry, (List.mergeSort_perm listing Store.nameLe).mem_iff.2 hentry, h⟩

/-- In which order the files are listed does not matter. -/
theorem load_listing {listing : List (Text × File)} (h : listing.Perm files.entries) :
    (Store.load limits reference directory (some listing) host).run.value =
      (Store.load limits reference directory (some files.entries) host).run.value := by
  have hsort : listing.mergeSort Store.nameLe = files.entries.mergeSort Store.nameLe := by
    refine Store.sort_eq ((List.mergeSort_perm files.entries Store.nameLe).trans h.symm) (fun a ha b hb hab => ?_)
      (Store.pairwise_sort files.entries)
    exact Table.eq_of_mem (h.mem_iff.1 ha) (h.mem_iff.1 hb) hab
  simp only [Store.load, hsort]

theorem filterMap_filter_of_none {α β : Type} {p : α → Bool} {f : α → Option β} {xs : List α}
    (h : ∀ x ∈ xs, p x = false → f x = none) : (xs.filter p).filterMap f = xs.filterMap f := by
  induction xs with
  | nil => rfl
  | cons x xs ih =>
    obtain ⟨hx, hxs⟩ := List.forall_mem_cons.1 h
    by_cases hp : p x = true
    · rw [List.filter_cons_of_pos hp, List.filterMap_cons, List.filterMap_cons, ih hxs]
    · rw [List.filter_cons_of_neg hp, ih hxs, List.filterMap_cons_none (hx (Bool.eq_false_iff.2 hp))]

/-- A directory less some of its files, if those give nothing. -/
theorem load_filter {p : Text × File → Bool} (hloads : Loads host limits reference files.entries)
    (h : ∀ entry ∈ files.entries, p entry = false → Idle host limits reference entry) :
    (Store.load limits reference directory (some (files.entries.filter p)) host).run.value =
      (Store.load limits reference directory (some files.entries) host).run.value := by
  have hsort : (files.entries.filter p).mergeSort Store.nameLe = (visited files).filter p := by
    refine Store.sort_eq ((List.mergeSort_perm files.entries Store.nameLe).filter p) (fun a ha b hb hab => ?_)
      ((Store.pairwise_sort files.entries).filter p)
    exact Table.eq_of_mem (List.mem_filter.1 ha).1 (List.mem_filter.1 hb).1 hab
  rw [value_load hloads, value_load fun entry hentry => hloads entry (List.mem_filter.1 hentry).1, hsort]
  have hsame : ((visited files).filter p).filterMap (yield? host limits reference directory) =
      (visited files).filterMap (yield? host limits reference directory) :=
    filterMap_filter_of_none fun entry hentry hp => yield?_idle (h entry (mem_visited_iff.1 hentry) hp)
  rw [hsame]
  rfl

/-! ## What the store says -/

theorem Store.keySets_languages (s : Store) : s.keySets.map (·.1) = s.languages.keys := by
  rw [Store.keySets, List.map_map]
  rfl

theorem Store.paths_languages (s : Store) : s.paths.map (·.1) = s.languages.keys := by
  rw [Store.paths, List.map_map]
  rfl

theorem Store.mem_iff {s : Store} {language name : Text} {keys : List Text} :
    (language, name) ∈ s.paths ∧ (language, keys) ∈ s.keySets ↔ (language, ⟨name, keys⟩) ∈ s.languages.entries := by
  constructor
  · rintro ⟨hpath, hkeys⟩
    obtain ⟨d, hd, hpath⟩ := List.mem_map.1 hpath
    obtain ⟨e, he, hkeys⟩ := List.mem_map.1 hkeys
    obtain ⟨rfl, rfl⟩ := Prod.mk.inj hpath
    obtain ⟨hlanguage, rfl⟩ := Prod.mk.inj hkeys
    obtain rfl := Table.eq_of_mem he hd hlanguage
    exact hd
  · intro h
    exact ⟨List.mem_map.2 ⟨_, h, rfl⟩, List.mem_map.2 ⟨_, h, rfl⟩⟩

theorem mem_yielded_keys_iff {language name : Text} {keys : List Text} :
    (language, ⟨name, keys⟩) ∈ yielded files host limits reference directory ↔
      ∃ file, (name, file) ∈ files.entries ∧ Yields host limits reference directory (name, file) language keys := by
  rw [mem_yielded_iff]
  constructor
  · rintro ⟨⟨name', file⟩, hentry, hyield⟩
    obtain ⟨hyields, rfl⟩ := yield?_iff.1 hyield
    exact ⟨file, hentry, hyields⟩
  · rintro ⟨file, hentry, hyields⟩
    exact ⟨(name, file), hentry, yield?_iff.2 ⟨hyields, rfl⟩⟩

theorem load_keys_deployable {language : Text}
    (h : language ∈ (Table.ofList (yielded files host limits reference directory)).keys) :
    Deployable reference language := by
  rw [Table.keys_ofList] at h
  obtain ⟨⟨l, d⟩, hd, rfl⟩ := List.mem_map.1 (Distinct.mem_of_mem_dedup h)
  obtain ⟨file, -, hyields⟩ := mem_yielded_keys_iff.1 hd
  exact hyields.1

theorem load_latest {language name : Text} {keys : List Text} :
    (language, ⟨name, keys⟩) ∈ (Table.ofList (yielded files host limits reference directory)).entries ↔
      ∃ file, (name, file) ∈ files.entries ∧ Yields host limits reference directory (name, file) language keys ∧
        ∀ other ∈ files.entries, ∀ keys',
          Yields host limits reference directory other language keys' → ¬ name < other.1 := by
  rw [mem_ofList_yielded_iff, mem_yielded_keys_iff]
  constructor
  · rintro ⟨⟨file, hentry, hyields⟩, hmost⟩
    exact ⟨file, hentry, hyields, fun other hother keys' h =>
      hmost ⟨other.1, keys'⟩ (mem_yielded_keys_iff.2 ⟨other.2, hother, h⟩)⟩
  · rintro ⟨file, hentry, hyields, hmost⟩
    refine ⟨⟨file, hentry, hyields⟩, fun d hd => ?_⟩
    obtain ⟨file', hentry', hyields'⟩ := mem_yielded_keys_iff.1 hd
    exact hmost _ hentry' _ hyields'

theorem not_ends_idle {entry : Text × File} (h : Idle host limits reference entry) :
    ¬ Ends host limits reference entry := by
  rintro ⟨language, format, hdeployable, hname, hover⟩
  have hidle := value_unusable (h language format hdeployable hname) []
  rw [value_overflowing hover] at hidle
  cases hidle

theorem not_ends {entry : Text × File} {language : Text} {keys : List Text}
    (h : Yields host limits reference directory entry language keys) : ¬ Ends host limits reference entry := by
  rintro ⟨language', format', hdeployable', hname', hover⟩
  obtain ⟨hdeployable, format, hname, hkeys⟩ := h
  have hsame := languageOf?_iff.2 ⟨hdeployable', hname'⟩
  rw [languageOf?_iff.2 ⟨hdeployable, hname⟩] at hsame
  cases hsame
  rw [value_overflowing hover] at hkeys
  cases hkeys

theorem load_single {entry : Text × File} {language : Text} {keys : List Text}
    (h : Yields host limits reference directory entry language keys) :
    (Store.load limits reference directory (some [entry]) host).run.value.map Store.keySets =
      .ok [(language, keys)] := by
  have hyield : yield? host limits reference directory entry = some (language, ⟨entry.1, keys⟩) :=
    yield?_iff.2 ⟨h, rfl⟩
  rw [value_load (List.forall_mem_singleton.2 (not_ends h)), List.mergeSort_singleton, List.filterMap_cons, hyield]
  rfl

/-- What is said of one directory's store. -/
structure Deploys (host : Host) (limits : Limits) (reference directory : Text) (files : Table Text File) (s : Store) :
    Prop where
  /-- Keys and paths are of the same languages, in the same order. -/
  aligned : s.keySets.map (·.1) = s.paths.map (·.1)
  once : (s.paths.map (·.1)).Nodup
  deployable : ∀ language ∈ s.paths.map (·.1), Deployable reference language
  /-- A language has the keys of the last file that gives it any. -/
  latest : ∀ language name keys,
    (language, name) ∈ s.paths ∧ (language, keys) ∈ s.keySets ↔
      ∃ file, (name, file) ∈ files.entries ∧ Yields host limits reference directory (name, file) language keys ∧
        ∀ other ∈ files.entries, ∀ keys',
          Yields host limits reference directory other language keys' → ¬ name < other.1
  /-- That file alone gives the same keys. -/
  alone : ∀ language name keys, (language, name) ∈ s.paths → (language, keys) ∈ s.keySets →
    ∃ file, (name, file) ∈ files.entries ∧
      (Store.load limits reference directory (some [(name, file)]) host).run.value.map Store.keySets =
        .ok [(language, keys)]
  /-- Languages stand in the order of the first files that give them keys. -/
  ordered : (s.paths.map (·.1)).Pairwise fun language language' =>
    ∃ first ∈ files.entries, (∃ keys, Yields host limits reference directory first language keys) ∧
      ∀ later ∈ files.entries, (∃ keys, Yields host limits reference directory later language' keys) →
        first.1 < later.1
  /-- A file that gives nothing could as well not be there. -/
  idle : ∀ entry ∈ files.entries, Idle host limits reference entry →
    (Store.load limits reference directory (some (files.entries.filter (·.1 != entry.1))) host).run.value = .ok s

/-- If no file is nested deeper than there is room for, the store of a directory says for every
language what its last usable file says; if one is, nothing is loaded. -/
theorem load_directory (host : Host) (limits : Limits) (reference directory : Text) (files : Table Text File) :
    (Loads host limits reference files.entries → ∃ s,
        (Store.load limits reference directory (some files.entries) host).run.value = .ok s ∧
          Deploys host limits reference directory files s) ∧
      (∀ entry ∈ files.entries, Ends host limits reference entry →
        (Store.load limits reference directory (some files.entries) host).run.value = .error (.plain .tooDeep)) := by
  refine ⟨fun hloads => ⟨⟨.ofList (yielded files host limits reference directory)⟩, value_load hloads, ?_⟩,
    fun entry hentry hends => value_load_ends hentry hends⟩
  refine
    { aligned := (Store.keySets_languages _).trans (Store.paths_languages _).symm
      once := ?once, deployable := ?deployable, latest := ?latest, alone := ?alone, ordered := ?ordered, idle := ?idle }
  case once =>
    rw [Store.paths_languages]
    exact Table.keys_nodup _
  case deployable =>
    rw [Store.paths_languages]
    exact fun language h => load_keys_deployable h
  case latest =>
    intro language name keys
    rw [Store.mem_iff]
    exact load_latest
  case alone =>
    intro language name keys hpath hkeys
    obtain ⟨file, hentry, hyields, -⟩ := load_latest.1 (Store.mem_iff.1 ⟨hpath, hkeys⟩)
    exact ⟨file, hentry, load_single hyields⟩
  case ordered =>
    rw [Store.paths_languages]
    refine pairwise_languages.imp fun ⟨d, hd, hbefore⟩ => ?_
    obtain ⟨file, hentry, hyields⟩ := mem_yielded_keys_iff.1 hd
    refine ⟨(d.fileName, file), hentry, ⟨d.keys, hyields⟩, fun later hlater ⟨keys, h⟩ => ?_⟩
    exact hbefore ⟨later.1, keys⟩ (mem_yielded_keys_iff.2 ⟨later.2, hlater, h⟩)
  case idle =>
    intro entry hentry hidle
    refine (load_filter hloads fun other hother hp => ?_).trans (value_load hloads)
    obtain rfl := Table.eq_of_mem hother hentry (by simpa using hp)
    exact hidle

def openBrackets (n : Nat) : File := .holding (List.replicate n ('[' : Code))

theorem readText_brackets (n : Nat) :
    File.readText (some (openBrackets n)) = .ok (List.replicate n ('[' : Code)) := by
  refine File.readText_holding (List.all_eq_true.2 fun c hc => ?_)
  rw [List.eq_of_mem_replicate hc]
  rfl

theorem overflowing_brackets {host : Host} {limits : Limits} {n : Nat} (hn : host.room + 1 < n) :
    Overflowing host limits .json (openBrackets n) := by
  have hready : Json.Reader.Ready {} := ⟨rfl, fun members s e => by cases e⟩
  have hclosed : Json.Closed [] [] := fun _ => rfl
  have hread : Json.readOn host ([] ++ List.replicate n ('[' : Code) ++ []) = .error .tooDeep :=
    Json.readOn_nested hclosed rfl hready (Nat.zero_le _) (by simpa using hn) []
  rw [List.nil_append, List.append_nil] at hread
  exact .json (readText_brackets n) hread

def sampleEntry : Text × File := ("fr.json", .holding "\x7b\"a\": \"x\"\x7d")

theorem yields_sample : Yields {} {} "en" "tr" sampleEntry "fr" ["a"] :=
  ⟨deployable_iff.1 (by decide +kernel), .json, rfl, ok_of_toOption (by decide +kernel)⟩

def sampleFiles : Table Text File := .ofList [("de.json", openBrackets 1), sampleEntry]

theorem idle_bracket : Idle {} {} "en" ("de.json", openBrackets 1) := by
  intro language format hdeployable hname
  have hnamed : languageOf? "en" "de.json" = some (("de" : Text), Format.json) := by decide +kernel
  rw [languageOf?_iff.2 ⟨hdeployable, hname⟩] at hnamed
  obtain ⟨-, rfl⟩ := Prod.mk.inj (Option.some.inj hnamed)
  have hread : Json.readOn {} [('[' : Code)] = .error .malformed := rfl
  exact .malformed (readText_brackets 1) hread nofun

theorem load_directory_sample :
    Loads {} {} "en" sampleFiles.entries ∧
      ∃ s, (Store.load {} "en" "tr" (some sampleFiles.entries)).run.value = .ok s ∧
        (("fr" : Text), ("fr.json" : Text)) ∈ s.paths ∧ (("fr" : Text), (["a"] : List Text)) ∈ s.keySets ∧
        (Store.load {} "en" "tr" (some [sampleEntry])).run.value = .ok s := by
  have hentries : sampleFiles.entries = [(("de.json" : Text), openBrackets 1), sampleEntry] := rfl
  have hloads : Loads {} {} "en" sampleFiles.entries := by
    rw [hentries]
    exact List.forall_mem_cons.2 ⟨not_ends_idle idle_bracket, List.forall_mem_singleton.2 (not_ends yields_sample)⟩
  obtain ⟨s, hload, hdeploys⟩ := (load_directory {} {} "en" "tr" sampleFiles).1 hloads
  have hlast : ∀ other ∈ sampleFiles.entries, ¬ (("fr.json" : Text) < other.1) := by
    rw [hentries]
    exact List.forall_mem_cons.2 ⟨by decide +kernel, List.forall_mem_singleton.2 (List.lt_irrefl _)⟩
  obtain ⟨hpath, hkeys⟩ := (hdeploys.latest "fr" "fr.json" ["a"]).2
    ⟨sampleEntry.2, by rw [hentries]; simp [sampleEntry], yields_sample, fun other hother _ _ => hlast other hother⟩
  have halone : (sampleFiles.entries.filter fun e => e.1 != ("de.json" : Text)) = [sampleEntry] := rfl
  have hidle := hdeploys.idle _ (by rw [hentries]; exact List.mem_cons_self) idle_bracket
  rw [halone] at hidle
  exact ⟨hloads, s, hload, hpath, hkeys, hidle⟩

/-- A file of open brackets is no JSON, and nothing is loaded of the directory it is in, though there
would be something without it. -/
theorem load_directory_deep :
    (Store.load {} "en" "tr" (some [("de.json", openBrackets 200000), sampleEntry])).run.value =
        .error (.plain .tooDeep) ∧
      (Store.load {} "en" "tr" (some [sampleEntry])).run.value.map Store.keySets =
        .ok ([("fr", ["a"])] : List (Text × List Text)) := by
  refine ⟨value_load_ends List.mem_cons_self ⟨"de", .json, deployable_iff.1 (by decide +kernel), rfl, ?_⟩,
    load_single yields_sample⟩
  exact overflowing_brackets (by decide)

end MessageCatalog.Artifact
