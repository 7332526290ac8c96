/-
  MessageCatalog.Proofs.Settings.Precedence — which of several values counts.

  Explicit values are written over the file's entries of the same names, and what is found
  there for a field counts before its variable in the environment, this before the default.
  So an override counts before the file's entry if both spell the name in one way, and the
  variables are those with the prefix unless a name with a leading underscore, an option of
  the call, says otherwise. Calls in which neither happens are plain. What is shadowed is
  not even read, so it may be invalid; a value that counts and is refused is not made up
  for by one it shadows.

  Proved: with any library that keeps its promises, a plain call settles every field on its
  decisive value and on nothing else, changing what is not visible changes nothing, and
  settings are within their bounds, with their languages in a normal form that is loaded as
  itself (`load_decided`). Options and second spellings do change it (`load_undecided`).
-/

import Mathlib.Data.List.Find
import MessageCatalog.Proofs.Config
import MessageCatalog.Proofs.Settings.Fields

namespace MessageCatalog

namespace Settings

/-! ## Names -/

theorem Field.lower_name (f : Field) : Text.lower f.name = f.name := by cases f <;> decide

theorem Field.find?_eq (key : Field → Text) (hkey : ∀ f ∈ all, ∀ g ∈ all, key f = key g → f = g) {f : Field} {n : Text}
    (h : n = key f) : (all.find? fun g => n == key g) = some f := by
  cases hfound : all.find? fun g => n == key g with
  | none =>
    have := List.find?_eq_none.1 hfound f f.mem_all
    simp [h] at this
  | some g =>
    have hg : n = key g := by simpa using List.find?_some hfound
    rw [hkey f f.mem_all g g.mem_all (h.symm.trans hg)]

def Field.ofName? (n : Text) : Option Field := Field.all.find? fun f => Text.lower n == f.name

theorem Field.ofName?_eq {f : Field} {n : Text} (h : Text.lower n = f.name) : Field.ofName? n = some f :=
  Field.find?_eq name (by decide) h

def Field.ofVariable? (n : Text) : Option Field :=
  Field.all.find? fun f => Text.lower n == Text.lower (variablePrefix ++ f.name)

theorem Field.ofVariable?_eq {f : Field} {n : Text} (h : Text.lower n = Text.lower (variablePrefix ++ f.name)) :
    Field.ofVariable? n = some f :=
  Field.find?_eq (fun f => Text.lower (variablePrefix ++ f.name)) (by decide +kernel) h

theorem find?_filter_of {α : Type} {p q : α → Bool} {es : List α} (h : ∀ e ∈ es, q e = true → p e = true) :
    (es.filter p).find? q = es.find? q := by
  rw [List.find?_filter]
  refine List.find?_congr fun e he => ?_
  cases hq : q e with
  | true => simp [h e he hq]
  | false => simp

theorem environmentValue?_filter {p : Text × Text → Bool} {start name : Text} {environment : List (Text × Text)}
    (h : ∀ e ∈ environment, Text.lower e.1 = Text.lower (start ++ name) → p e = true) :
    environmentValue? start (environment.filter p) name = environmentValue? start environment name := by
  rw [environmentValue?, environmentValue?, ← List.filter_reverse,
    find?_filter_of fun e he hq => h e (List.mem_reverse.1 he) (by simpa using hq)]

namespace Source

variable {s : Source} {name : Text}

/-- The last value under a name, in any case. -/
def value? (s : Source) (name : Text) : Option Data := ((s.spelled name).getLast?).map (·.2)

theorem value?_filter {p : Text × Data → Bool} (h : ∀ e ∈ s, Text.lower e.1 = name → p e = true) :
    value? (s.filter p) name = value? s name := by
  have hspelled : spelled (s.filter p) name = spelled s name := by
    rw [spelled, spelled, List.filter_filter]
    refine List.filter_congr fun e he => ?_
    cases hname : Text.lower e.1 == name with
    | false => rfl
    | true => rw [h e he (eq_of_beq hname), Bool.true_and]
  rw [value?, value?, hspelled]

theorem value?_append (s u : Source) : value? (s ++ u) name = (value? u name).or (value? s name) := by
  rw [value?, value?, value?, spelled, List.filter_append, List.getLast?_append]
  cases h : (List.filter (fun e => Text.lower e.1 == name) u).getLast? <;> simp [spelled, h]

end Source

/-! ## The library -/

theorem textsOf_texts (ts : List Text) : textsOf (ts.map .text) = ts := by
  rw [textsOf, List.filterMap_map]
  exact List.filterMap_some

theorem misplaced_texts (place : Nat) (ts : List Text) : misplaced place (ts.map .text) = [] := by
  induction ts generalizing place with
  | nil => rfl
  | cons t ts ih => exact ih (place + 1)

theorem misplaced_nil {place : Nat} {ds : List Data} (h : misplaced place ds = []) :
    ∃ ts : List Text, ds = ts.map .text := by
  induction ds generalizing place with
  | nil => exact ⟨[], rfl⟩
  | cons d ds ih =>
    cases d with
    | text t =>
      obtain ⟨ts, rfl⟩ := ih h
      exact ⟨t :: ts, rfl⟩
    | _ => cases h

theorem readItems_texts (ts : List Text) : readItems (ts.map .text) = .ok ts := by
  rw [readItems, misplaced_texts, textsOf_texts]

theorem readItems_ok {ds : List Data} {ts : List Text} (h : readItems ds = .ok ts) : ds = ts.map .text := by
  rw [readItems] at h
  split at h
  · rename_i hplaced
    obtain ⟨us, rfl⟩ := misplaced_nil hplaced
    rw [textsOf_texts] at h
    rw [Except.ok.inj h]
  · cases h

theorem readItems_error (ds : List Data) : readItems ds ≠ .error [] := by
  rw [readItems]
  split
  · exact nofun
  · rename_i hplaced
    exact fun he => hplaced (Except.error.inj he)

theorem Source.pick_spelled {s : Source} {name : Text} (hname : Text.lower name = name)
    (hone : (s.spelled name).length ≤ 1) : s.pick? name = ((s.spelled name).head?).map (·.2) := by
  have hlast : (s.spelled name).getLast? = (s.spelled name).head? := by
    match s.spelled name, hone with
    | [], _ => rfl
    | [e], _ => rfl
  rw [pick?]
  cases hfind : s.find? (·.1 == name) with
  | none => rw [hlast]
  | some e =>
    have hkey : e.1 = name := by simpa using List.find?_some hfind
    have hmem : e ∈ s.spelled name :=
      List.mem_filter.2 ⟨List.mem_of_find?_eq_some hfind, by rw [hkey, hname]; exact beq_self_eq_true name⟩
    match s.spelled name, hone, hmem with
    | [x], _, h =>
      obtain rfl := List.mem_singleton.1 h
      rfl

theorem documented : ({} : Library).Documented where
  pick _ _ hname hone := Source.pick_spelled hname hone
  fromEnvironment _ := rfl
  texts_list ts := readItems_texts ts
  texts_ok d ts h := by
    cases d with
    | list ds => exact .inl (congrArg Data.list (readItems_ok h))
    | tuple ds => exact .inr (congrArg Data.tuple (readItems_ok h))
    | _ => cases h
  texts_error d h := by
    cases d with
    | list ds => exact readItems_error ds h
    | tuple ds => exact readItems_error ds h
    | _ => cases h

theorem languages_settled {library : Library} (hlibrary : library.Documented) {given : Option Data} {s : Settings}
    (h : Field.languages.settle library given = some (Field.languages.of s)) :
    IsNormal s.languages ∧ ∀ d ∈ given, ∃ items, Spells d items ∧ Listed items s.languages := by
  cases given with
  | none =>
    have hdefault : normalize ({} : Settings).languages = ({} : Settings).languages := by decide
    obtain hs : ({} : Settings).languages = s.languages := ofTexts_inj (Option.some.inj h)
    rw [← hs, ← hdefault]
    exact ⟨isNormal_normalize _, nofun⟩
  | some d =>
    obtain ⟨ts, hread, hts⟩ := Option.map_eq_some_iff.1 h
    obtain rfl := ofTexts_inj hts
    cases hd : readLanguages library d with
    | error refused =>
      rw [hd] at hread
      cases hread
    | ok us =>
      rw [hd] at hread
      obtain rfl : us = s.languages := Option.some.inj hread
      obtain ⟨items, hitems, hus⟩ := readLanguages_ok hlibrary hd
      rw [hus]
      refine ⟨isNormal_normalize items, fun d' hd' => ?_⟩
      obtain rfl := Option.some.inj hd'
      exact ⟨items, hitems, listed_normalize items⟩

end Settings

namespace Config

open Settings

/-! ## What is given -/

/-- What settings are loaded from, the file as the mapping it holds. -/
structure Given where
  overrides : Settings.Source := []
  file : Settings.Source := []
  environment : List (Text × Text) := []

namespace Given

variable (g : Given) (f : Field)

/-- No name is an option of the call, and no field is spelled in two ways. -/
structure IsPlain : Prop where
  options : ∀ e ∈ g.file ++ g.overrides, Source.isOption e.1 = false
  spelling : ∀ f : Field, ∀ e ∈ Source.spelled (g.file ++ g.overrides) f.name,
    ∀ e' ∈ Source.spelled (g.file ++ g.overrides) f.name, e.1 = e'.1

/-- The value that counts for a field: an override, else an entry of the file, else a
variable of the environment. -/
def decisive : Option Data :=
  (g.overrides.value? f.name).or ((g.file.value? f.name).or (environmentValue? variablePrefix g.environment f.name))

/-- What is left without unknown names and shadowed values. -/
def visible : Given where
  overrides := g.overrides.filter fun e => (Field.ofName? e.1).isSome
  file := g.file.filter fun e => (Field.ofName? e.1).any fun f => (g.overrides.value? f.name).isNone
  environment := g.environment.filter fun e =>
    (Field.ofVariable? e.1).any fun f => (g.overrides.value? f.name).isNone && (g.file.value? f.name).isNone

theorem decisive_visible : g.visible.decisive f = g.decisive f := by
  have hoverrides : g.visible.overrides.value? f.name = g.overrides.value? f.name :=
    Source.value?_filter fun e _ he => by simp [Field.ofName?_eq he]
  rw [decisive, decisive, hoverrides]
  cases hover : g.overrides.value? f.name with
  | some d => rw [Option.some_or, Option.some_or]
  | none =>
    have hfile : g.visible.file.value? f.name = g.file.value? f.name :=
      Source.value?_filter fun e _ he => by simp [Field.ofName?_eq he, hover]
    rw [hfile, Option.none_or, Option.none_or]
    cases hentry : g.file.value? f.name with
    | some d => rw [Option.some_or, Option.some_or]
    | none =>
      rw [visible, environmentValue?_filter]
      exact fun e _ he => by simp [Field.ofVariable?_eq he, hover, hentry]

theorem pick_merge {library : Settings.Library} (hlibrary : library.Documented) (hg : g.IsPlain) :
    library.pick (merge g.file g.overrides) f.name = (g.overrides.value? f.name).or (g.file.value? f.name) := by
  have hspelled : (merge g.file g.overrides).spelled f.name =
      (Table.ofList ((g.file ++ g.overrides).spelled f.name)).entries :=
    Table.filter_ofList (fun k => Text.lower k == f.name) _
  have hlast := Table.entries_ofList_same (hg.spelling f)
  have hone : ((merge g.file g.overrides).spelled f.name).length ≤ 1 := by
    rw [hspelled, hlast, Option.length_toList]
    split <;> omega
  rw [hlibrary.pick _ _ f.lower_name hone, hspelled, hlast, ← Source.value?_append, Source.value?]
  cases (Source.spelled (g.file ++ g.overrides) f.name).getLast? <;> rfl

theorem options_merge (hg : g.IsPlain) : (merge g.file g.overrides).options = [] := by
  have hnone : (g.file ++ g.overrides).filter (fun e => Source.isOption e.1) = [] :=
    List.filter_eq_nil_iff.2 fun e he => Bool.not_eq_true _ ▸ hg.options e he
  rw [Source.options, merge, Table.filter_ofList, hnone]
  rfl

end Given

/-! ## Loading what is given -/

/-- No file, an empty one, or one that holds a mapping with text names. -/
inductive Holds (library : Library) : Option (Option File) → Settings.Source → Prop
  | absent : Holds library none []
  | empty {f : Option File} {t : Text} (text : File.readText f = .ok t)
      (read : library.document t = .ok (.data .null)) : Holds library (some f) []
  | mapping {f : Option File} {t : Text} {s : Settings.Source} (text : File.readText f = .ok t)
      (read : library.document t = .ok (.data (.mapping (s.map fun e => (.text e.1, e.2))))) :
      Holds library (some f) s

theorem named_map (s : Settings.Source) : named (s.map fun e => (.text e.1, e.2)) = .ok s := by
  induction s with
  | nil => rfl
  | cons e s ih =>
    rw [named] at ih ⊢
    rw [List.map_cons, List.mapM_cons, ih]
    rfl

theorem value_fileValues {library : Library} (path : Text) {file : Option (Option File)} {s : Settings.Source}
    (h : Holds library file s) : (fileValues library path file).run.value = .ok s := by
  cases h with
  | absent => rfl
  | empty text read =>
    have hentries : ∀ t, library.document t = .ok (.data .null) → entries library path t = .ok [] := fun t hread => by
      rw [entries, hread]
    exact value_readFile_entries text (hentries _ read)
  | mapping text read => exact (value_readFile_entries text (entries_mapping path read)).trans (named_map s)

structure Call (library : Library) where
  path : Text
  file : Option (Option File)
  given : Given
  held : Holds library file given.file
  plain : given.IsPlain

namespace Call

variable {library : Library}

def outcome (c : Call library) : Except Fault Settings :=
  (load c.path c.file c.given.environment c.given.overrides library).run.value

section

variable (hlibrary : library.Documented)
include hlibrary

theorem outcome_eq (c : Call library) :
    c.outcome = Settings.validate library.toLibrary fun name =>
      (library.pick (merge c.given.file c.given.overrides) name).or
        (environmentValue? variablePrefix c.given.environment name) := by
  rw [outcome, value_load_ok c.path _ _ library (value_fileValues c.path c.held), Settings.ofSource,
    c.given.options_merge c.plain, hlibrary.fromEnvironment]
  rfl

theorem lookup_eq (c : Call library) (f : Field) :
    (library.pick (merge c.given.file c.given.overrides) f.name).or
      (environmentValue? variablePrefix c.given.environment f.name) = c.given.decisive f := by
  rw [c.given.pick_merge f hlibrary c.plain, Option.or_assoc, Given.decisive]

theorem outcome_ok_iff (c : Call library) (s : Settings) :
    c.outcome = .ok s ↔ ∀ f : Field, f.settle library.toLibrary (c.given.decisive f) = some (f.of s) := by
  rw [outcome_eq hlibrary, validate_ok_iff hlibrary]
  simp only [lookup_eq hlibrary]

theorem outcome_congr {c c' : Call library} (h : ∀ f, c'.given.decisive f = c.given.decisive f) :
    c'.outcome = c.outcome := by
  rw [outcome_eq hlibrary, outcome_eq hlibrary]
  refine validate_congr library.toLibrary fun f => ?_
  rw [lookup_eq hlibrary, lookup_eq hlibrary, h]

/-- Languages that are read as those of the settings can be given in their place. -/
theorem outcome_languages {c c' : Call library} {s : Settings} (hs : c.outcome = .ok s) {d : Data}
    (hd : readLanguages library.toLibrary d = .ok s.languages) (hlanguages : c'.given.decisive .languages = some d)
    (hother : ∀ f ≠ .languages, c'.given.decisive f = c.given.decisive f) : c'.outcome = .ok s := by
  refine (outcome_ok_iff hlibrary c' s).2 fun f => ?_
  by_cases hf : f = .languages
  · subst hf
    rw [hlanguages, Field.settle, Field.read?, hd]
    rfl
  · rw [hother f hf]
    exact (outcome_ok_iff hlibrary c s).1 hs f

end

end Call

/-- Every field is what its decisive value is read as, or its default; nothing else matters
to the outcome. Settings are within their bounds, and their languages, listed in normal
form, are loaded as themselves, as a list and, if none has a comma, as a text. -/
theorem load_decided {library : Library} (hlibrary : library.Documented) (c : Call library) :
    (∀ s, c.outcome = .ok s ↔
        ∀ f : Field, f.settle library.toLibrary (c.given.decisive f) = some (f.of s)) ∧
      (∀ c' : Call library, c'.given.visible = c.given.visible → c'.outcome = c.outcome) ∧
      ∀ s, c.outcome = .ok s →
        s.InBounds ∧ IsNormal s.languages ∧
          (∀ d ∈ c.given.decisive .languages, ∃ items, Spells d items ∧ Listed items s.languages) ∧
          ∀ c' : Call library, (∀ f ≠ .languages, c'.given.decisive f = c.given.decisive f) →
            (c'.given.decisive .languages = some (.ofTexts s.languages) → c'.outcome = .ok s) ∧
            ((∀ t ∈ s.languages, (',' : Code) ∉ t) →
              c'.given.decisive .languages = some (.text (Text.joinWith "," s.languages)) → c'.outcome = .ok s) := by
  refine ⟨Call.outcome_ok_iff hlibrary c, fun c' hvisible => ?_, fun s hs => ?_⟩
  · refine Call.outcome_congr hlibrary fun f => ?_
    rw [← c'.given.decisive_visible, hvisible, c.given.decisive_visible]
  · obtain ⟨hnormal, hlisted⟩ := languages_settled hlibrary ((Call.outcome_ok_iff hlibrary c s).1 hs .languages)
    refine ⟨?_, hnormal, hlisted, fun c' hother => ⟨fun hlanguages => ?_, fun hcomma hlanguages => ?_⟩⟩
    · rw [Call.outcome_eq hlibrary] at hs
      exact validate_inBounds library.toLibrary hs
    · exact Call.outcome_languages hlibrary hs (readLanguages_list hlibrary hnormal) hlanguages hother
    · exact Call.outcome_languages hlibrary hs (readLanguages_text hlibrary hnormal hcomma) hlanguages hother

/-- Whether the pairs are these texts. Evaluating it decides what a document holds. -/
def areTexts : List (Data × Data) → List (Text × Text) → Bool
  | [], [] => true
  | (.text k, .text v) :: ps, e :: l => k == e.1 && v == e.2 && areTexts ps l
  | _, _ => false

theorem eq_of_areTexts {ps : List (Data × Data)} {l : List (Text × Text)} (h : areTexts ps l = true) :
    ps = l.map fun e => (.text e.1, .text e.2) := by
  fun_induction areTexts ps l with
  | case1 => rfl
  | case2 k v ps e l ih =>
    simp only [Bool.and_eq_true, beq_iff_eq] at h
    obtain ⟨⟨rfl, rfl⟩, hrest⟩ := h
    rw [ih hrest, List.map_cons]
  | case3 => cases h

def holdsTexts (l : List (Text × Text)) : Except Fault Yaml.Node → Bool
  | .ok (.data (.mapping ps)) => areTexts ps l
  | _ => false

theorem eq_of_holdsTexts {x : Except Fault Yaml.Node} {l : List (Text × Text)} (h : holdsTexts l x = true) :
    x = .ok (.data (.mapping (l.map fun e => (.text e.1, .text e.2)))) := by
  rw [holdsTexts.eq_def] at h
  split at h
  · rw [eq_of_areTexts h]
  · cases h

theorem holds_texts {t : Text} {l : List (Text × Text)} (ht : t.all File.isKept = true)
    (h : holdsTexts l (Yaml.read t) = true) :
    Holds {} (some (some (.holding t))) (l.map fun e => (e.1, .text e.2)) :=
  .mapping (File.readText_holding ht) <| by
    rw [List.map_map]
    exact eq_of_holdsTexts h

theorem load_decided_sample :
    let g : Given :=
      { overrides := [("workers", .int 4)], file := [("workers", .text "many"), ("languages", .text "fr,de,, fr")]
        environment := [("KEYSYNC_MAX_DEPTH", "6"), ("KEYSYNC_LANGUAGES", "?")] }
    let s : Settings := { maxDepth := 6, workers := 4, languages := ["fr", "de"] }
    let g' : Given :=
      { g with overrides := ("region", .null) :: g.overrides, environment := [("KEYSYNC_MAX_DEPTH", "6")] }
    ∃ c c' : Call {}, c.given = g ∧ c.outcome = .ok s ∧ c'.given = g' ∧ c'.outcome = .ok s := by
  intro g s g'
  have held : Holds {} (some (some (.holding "workers: many\nlanguages: fr,de,, fr\n"))) g.file :=
    holds_texts (l := [("workers", "many"), ("languages", "fr,de,, fr")]) (by decide) (by decide +kernel)
  let c : Call {} := ⟨"keysync.yaml", _, g, held, by decide, fun f => by cases f <;> decide⟩
  let c' : Call {} := ⟨"keysync.yaml", _, g', held, by decide, fun f => by cases f <;> decide⟩
  obtain ⟨hok, hvisible, -⟩ := load_decided documented c
  have hs : c.outcome = .ok s := (hok s).2 fun f => by cases f <;> rfl
  exact ⟨c, c', rfl, hs, rfl, (hvisible c' rfl).trans hs⟩

/-- An option of the call hides a variable, and an override does not reach an entry that spells
the field in another way. -/
theorem load_undecided :
    let prefixed := some (some (File.holding "_env_prefix: \"X_\"\n"))
    let spelled := some (some (File.holding "max_depth: '6'\n"))
    let g : Given := { file := [("_env_prefix", .text "X_")], environment := [("KEYSYNC_MAX_DEPTH", "4")] }
    let g' : Given := { file := [("max_depth", .text "6")], overrides := [("MAX_DEPTH", .int 5)] }
    (Holds {} prefixed g.file ∧ g.decisive .maxDepth = some (.text "4") ∧
        (load "keysync.yaml" prefixed g.environment g.overrides).run.value = .ok {}) ∧
      Holds {} spelled g'.file ∧ g'.decisive .maxDepth = some (.int 5) ∧
        (load "keysync.yaml" spelled g'.environment g'.overrides).run.value = .ok { maxDepth := 6 } := by
  intro prefixed spelled g g'
  have hprefixed : Holds {} prefixed g.file :=
    holds_texts (l := [("_env_prefix", "X_")]) (by decide) (by decide +kernel)
  have hspelled : Holds {} spelled g'.file := holds_texts (l := [("max_depth", "6")]) (by decide) (by decide +kernel)
  refine ⟨⟨hprefixed, rfl, ?_⟩, hspelled, rfl, ?_⟩
  · rw [value_load_ok _ _ _ {} (value_fileValues _ hprefixed)]
    exact ok_of_toOption (by decide +kernel)
  · rw [value_load_ok _ _ _ {} (value_fileValues _ hspelled)]
    exact ok_of_toOption (by decide +kernel)

end Config

end MessageCatalog
