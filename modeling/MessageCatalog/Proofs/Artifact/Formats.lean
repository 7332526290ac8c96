/-
  MessageCatalog.Proofs.Artifact.Formats — one tree of translations in either format.

  JSON is walked as a tree, a literal is scanned as text, within limits. Both join the
  names on the way to a text, so both give the keys of the tree in its order: JSON gives
  each as often as it occurs, since a dotted name can spell a path, a literal once.

  Proved: an exported constant in any layout and JSON have the same keys, where there is
  room for the objects in them (`load_formats`). A constant whose name is too long is not
  found, white space that the scanner does not know ends a member, and objects that are
  allowed but for which there is no room end the loading (`load_formats_differ`).
-/

import MessageCatalog.Proofs.Artifact.KeySet
import MessageCatalog.Proofs.Artifact.Store
import MessageCatalog.Proofs.Json.Plain
import MessageCatalog.Proofs.Literal.Listing

namespace MessageCatalog.Artifact

open Literal Literal.Source

/-! ## Translations -/

/-- What is in an object, from some member on. -/
inductive Translations where
  | none
  | text (name value : Text) (rest : Translations)
  | group (name : Text) (inner rest : Translations)

namespace Translations

/-- The texts below the names that lead to them; `above` leads to the object. -/
def texts (above : List Text) : Translations → List Entry
  | .none => []
  | .text name value rest => ⟨above ++ [name], value⟩ :: rest.texts above
  | .group name inner rest => inner.texts (above ++ [name]) ++ rest.texts above

/-- A key for each text: the names that lead to it, joined by dots. -/
def keys (t : Translations) : List Text := (t.texts []).map fun e => Text.joinWith "." e.path

/-- How many levels of objects there are below this one. -/
def depth : Translations → Nat
  | .none => 0
  | .text _ _ rest => rest.depth
  | .group _ inner rest => max (inner.depth + 1) rest.depth

/-- Every name is a key, and not too long. -/
def areNamed (limits : Limits) : Translations → Bool
  | .none => true
  | .text name _ rest => Key.isValid name && name.length ≤ limits.maxKeyLength && rest.areNamed limits
  | .group name inner rest =>
    Key.isValid name && name.length ≤ limits.maxKeyLength && inner.areNamed limits && rest.areNamed limits

def groups : Translations → List Text
  | .none => []
  | .text _ _ rest => rest.groups
  | .group name _ rest => name :: rest.groups

def pairs : Translations → List (Data × Data)
  | .none => []
  | .text name value rest => (.text name, .text value) :: rest.pairs
  | .group name inner rest => (.text name, .mapping inner.pairs) :: rest.pairs

/-! ## Keys -/

theorem texts_named {limits : Limits} {t : Translations} (ht : t.areNamed limits = true) {above : List Text}
    (h : ∀ n ∈ above, Key.isValid n = true) :
    ∀ e ∈ t.texts above, e.path ≠ [] ∧ ∀ n ∈ e.path, Key.isValid n = true := by
  have hbelow : ∀ {name : Text} {above : List Text}, Key.isValid name = true → (∀ n ∈ above, Key.isValid n = true) →
      ∀ n ∈ above ++ [name], Key.isValid n = true := by
    intro name above hname h n hn
    rcases List.mem_append.1 hn with hn | hn
    · exact h n hn
    · rwa [List.mem_singleton.1 hn]
  induction t generalizing above with
  | none => nofun
  | text name value rest ih =>
    simp only [areNamed, Bool.and_eq_true] at ht
    obtain ⟨⟨hname, -⟩, hrest⟩ := ht
    refine List.forall_mem_cons.2 ⟨⟨by simp, hbelow hname h⟩, ih hrest h⟩
  | group name inner rest ihInner ihRest =>
    simp only [areNamed, Bool.and_eq_true] at ht
    obtain ⟨⟨⟨hname, -⟩, hinner⟩, hrest⟩ := ht
    exact List.forall_mem_append.2 ⟨ihInner hinner (hbelow hname h), ihRest hrest h⟩

theorem texts_depth (t : Translations) (above : List Text) :
    ∀ e ∈ t.texts above, e.path.length ≤ above.length + t.depth + 1 := by
  induction t generalizing above with
  | none => nofun
  | text name value rest ih =>
    refine List.forall_mem_cons.2 ⟨by simp, ih above⟩
  | group name inner rest ihInner ihRest =>
    refine List.forall_mem_append.2 ⟨fun e he => ?_, fun e he => ?_⟩
    · have hlen := ihInner (above ++ [name]) e he
      rw [List.length_append, List.length_singleton] at hlen
      rw [depth]
      omega
    · have hlen := ihRest above e he
      rw [depth]
      omega

theorem keys_valid {limits : Limits} {t : Translations} (ht : t.areNamed limits = true) :
    ∀ k ∈ t.keys, Key.isValid k = true := by
  intro k hk
  obtain ⟨e, he, rfl⟩ := List.mem_map.1 hk
  have hnone : ∀ n ∈ ([] : List Text), Key.isValid n = true := nofun
  obtain ⟨hne, hnames⟩ := texts_named ht hnone e he
  exact isValid_path hne hnames

/-! ## As JSON -/

theorem flat_under (base name : Text) : (if base.isEmpty then name else base ++ "." ++ name) = Key.under base name := by
  simp [Key.under, Text.ofString]

/-- The walk of an object gives a key for each text in it. -/
theorem flatPaths_pairs {limits : Limits} {t : Translations} (ht : t.areNamed limits = true) {above : List Text}
    (h : ∀ n ∈ above, n ≠ []) :
    flatPathsOfPairs (above.foldl Key.under []) t.pairs = (t.texts above).map fun e => Text.joinWith "." e.path := by
  induction t generalizing above with
  | none => rfl
  | text name value rest ih =>
    simp only [areNamed, Bool.and_eq_true] at ht
    have hleaf : ∀ base, flatPaths base (.text value) = [base] := fun _ => rfl
    rw [pairs, flatPathsOfPairs, ih ht.2 h, hleaf, Data.toText, flat_under, under_path h]
    rfl
  | group name inner rest ihInner ihRest =>
    simp only [areNamed, Bool.and_eq_true] at ht
    obtain ⟨⟨⟨hname, -⟩, hinner⟩, hrest⟩ := ht
    have hbelow : ∀ n ∈ above ++ [name], n ≠ [] := by
      intro n hn
      rcases List.mem_append.1 hn with hn | hn
      · exact h n hn
      · rw [List.mem_singleton.1 hn]
        exact Key.ne_nil_of_isValid hname
    have hwalk := ihInner hinner hbelow
    rw [List.foldl_append, List.foldl_cons, List.foldl_nil] at hwalk
    rw [pairs, flatPathsOfPairs, ihRest hrest h, flatPaths, Data.toText, flat_under, hwalk, texts, List.map_append]

theorem mem_groups {t : Translations} {name : Text} {inner : List (Data × Data)}
    (h : Data.get? t.pairs (.text name) = some (.mapping inner)) : name ∈ t.groups := by
  induction t with
  | none => cases h
  | text n value rest ih =>
    rw [pairs, Data.get?, List.find?_cons] at h
    split at h
    · cases h
    · exact ih h
  | group n inner' rest _ ih =>
    rw [pairs, Data.get?, List.find?_cons] at h
    split at h
    · rename_i heq
      obtain rfl : n = name := eq_of_beq (α := Text) heq
      exact List.mem_cons_self
    · exact List.mem_cons_of_mem n (ih h)

theorem jsonKeys_pairs {limits : Limits} {t : Translations} (ht : t.areNamed limits = true)
    (hplain : ("translations" : Text) ∉ t.groups) : jsonKeys (.mapping t.pairs) = t.keys := by
  have hnone : ∀ n ∈ ([] : List Text), n ≠ [] := nofun
  have hwalk : flatPathsOfPairs [] t.pairs = t.keys := flatPaths_pairs ht hnone
  rw [jsonKeys]
  split
  · rename_i inner hinner
    exact absurd (mem_groups hinner) hplain
  · exact hwalk

end Translations

/-! ## As a literal -/

mutual

/-- Members that spell translations: every name as it is quoted, every text in any quotes,
as long as what stands between them is short. -/
inductive Spells (limits : Limits) : Members → Translations → Prop
  | done (gap : Gap) : Spells limits (.done gap) .none
  | text (before beforeColon afterColon : Gap) (name : Text) {s : Quoted} {value : Text}
      (denotes : s.denoted = value) (short : s.body.length < limits.maxValueLength) {tail : Tail}
      {rest : Translations} (more : SpellsTail limits tail rest) :
      Spells limits (.leaf ⟨before, .quoted (.ofText name) rfl, beforeColon, afterColon⟩ (.text s []) tail)
        (.text name value rest)
  | group (before beforeColon afterColon : Gap) (name : Text)
      (isNamed : (Name.quoted (.ofText name) rfl).denoted ≠ []) {m : Members} {inner : Translations}
      (inside : Spells limits m inner) {tail : Tail} {rest : Translations} (more : SpellsTail limits tail rest) :
      Spells limits (.object ⟨before, .quoted (.ofText name) rfl, beforeColon, afterColon⟩ isNamed m tail)
        (.group name inner rest)

inductive SpellsTail (limits : Limits) : Tail → Translations → Prop
  | last (gap : Gap) : SpellsTail limits (.last gap) .none
  | comma (gap : Gap) {m : Members} {rest : Translations} (more : Spells limits m rest) :
      SpellsTail limits (.comma gap m) rest

end

mutual

theorem Spells.texts {limits : Limits} {m : Members} {t : Translations} (h : Spells limits m t) (above : List Text) :
    m.texts above = t.texts above := by
  match h with
  | .done gap => rfl
  | .text before beforeColon afterColon name denotes short more =>
    rw [Members.texts, Translations.texts, more.texts above]
    simp [Leaf.denoted?, Name.denoted, denoted_ofText, denotes]
  | .group before beforeColon afterColon name isNamed inside more =>
    have hname : (Name.quoted (.ofText name) rfl).denoted = name := denoted_ofText name
    rw [Members.texts, Translations.texts, more.texts above, hname, inside.texts]

theorem SpellsTail.texts {limits : Limits} {l : Tail} {t : Translations} (h : SpellsTail limits l t)
    (above : List Text) : l.texts above = t.texts above := by
  match h with
  | .last gap => rfl
  | .comma gap more => exact more.texts above

end

theorem fits_quoted {limits : Limits} {name : Text} (hname : Key.isValid name = true)
    (hlen : name.length ≤ limits.maxKeyLength) (before beforeColon afterColon : Gap) :
    Head.fits limits ⟨before, .quoted (.ofText name) rfl, beforeColon, afterColon⟩ = true := by
  have hwritten : (Name.quoted (.ofText name) rfl).written = name := quoted_key hname
  rw [Head.fits, hwritten]
  exact decide_eq_true hlen

theorem fits_string {limits : Limits} {s : Quoted} (short : s.body.length < limits.maxValueLength) :
    Leaf.fits limits (.text s []) = true := by
  have hdenoted : s.denoted.length ≤ s.body.length := length_decode_le s.body
  simp only [Leaf.fits, List.map_nil, List.all_cons, List.all_nil, Bool.and_true, List.flatMap_nil, List.append_nil,
    Bool.and_eq_true, decide_eq_true_eq]
  exact ⟨short, by omega⟩

mutual

theorem Spells.fits {limits : Limits} {m : Members} {t : Translations} (h : Spells limits m t)
    (ht : t.areNamed limits = true) : m.fits limits = true := by
  match h with
  | .done gap => rfl
  | .text before beforeColon afterColon name denotes short more =>
    simp only [Translations.areNamed, Bool.and_eq_true, decide_eq_true_eq] at ht
    obtain ⟨⟨hname, hlen⟩, hrest⟩ := ht
    rw [Members.fits, fits_quoted hname hlen, fits_string short, more.fits hrest]
    rfl
  | .group before beforeColon afterColon name isNamed inside more =>
    simp only [Translations.areNamed, Bool.and_eq_true, decide_eq_true_eq] at ht
    obtain ⟨⟨⟨hname, hlen⟩, hinner⟩, hrest⟩ := ht
    rw [Members.fits, fits_quoted hname hlen, inside.fits hinner, more.fits hrest]
    rfl

theorem SpellsTail.fits {limits : Limits} {l : Tail} {t : Translations} (h : SpellsTail limits l t)
    (ht : t.areNamed limits = true) : l.fits limits = true := by
  match h with
  | .last gap => rfl
  | .comma gap more => exact more.fits ht

end

/-- No object is too deep: the scan finds every text. -/
theorem keyed_texts {limits : Limits} {t : Translations} (hdepth : t.depth ≤ limits.maxDepth) :
    (keyed limits [] (t.texts [])).map (·.1) = t.keys := by
  have hall : (t.texts []).filter (fun e => e.path.length ≤ limits.maxDepth + 1) = t.texts [] := by
    refine List.filter_eq_self.2 fun e he => decide_eq_true ?_
    have hlen := t.texts_depth [] e he
    rw [List.length_nil] at hlen
    omega
  rw [keyed, hall, List.map_map]
  rfl

mutual

theorem Spells.height {limits : Limits} {m : Members} {t : Translations} (h : Spells limits m t) :
    m.height = t.depth := by
  match h with
  | .done gap => rfl
  | .text before beforeColon afterColon name denotes short more => exact more.height
  | .group before beforeColon afterColon name isNamed inside more =>
    rw [Members.height, Translations.depth, inside.height, more.height]

theorem SpellsTail.height {limits : Limits} {l : Tail} {t : Translations} (h : SpellsTail limits l t) :
    l.height = t.depth := by
  match h with
  | .last gap => rfl
  | .comma gap more => exact more.height

end

theorem keySet_named {host : Host} {limits : Limits} {m : Members} {t : Translations} (hspells : Spells limits m t)
    (hnamed : t.areNamed limits = true) (hdepth : t.depth ≤ limits.maxDepth) (hroom : t.depth ≤ host.room)
    {first : Code} {more : Text}
    (starts : Extraction.Anchor.startsName first = true) (continues : more.all Extraction.Anchor.continuesName = true)
    (short : more.length ≤ maxNameChars) (before : Gap) (after : Text)
    (hlen : (m.source [] []).length ≤ limits.maxContentLength) :
    (keySet limits (constantOpening first more ++ m.source before after) host).run.value = .ok (dedup t.keys) := by
  have hkeyed := keyed_texts hdepth
  have hover : ¬ Overflows host limits [] (m.source [] []) := by
    rw [Members.source, overflows_source (hspells.fits hnamed), hspells.height]
    omega
  have hall : (keyed limits [] (t.texts [])).filter (fun e => Key.isValid e.1) = keyed limits [] (t.texts []) := by
    refine List.filter_eq_self.2 fun e he => Translations.keys_valid hnamed e.1 ?_
    rw [← hkeyed]
    exact List.mem_map_of_mem he
  have hkeys : (tabulate (keyed limits [] (t.texts []))).entries.keys = dedup t.keys := by
    rw [tabulate, hall, Table.keys_ofList, hkeyed]
  rw [value_keySet host limits (messages_named starts continues short before m after), flattenOn_eq hover,
    flatten_run [] hlen, source_entries (hspells.fits hnamed), hspells.texts, Except.map, hkeys]

/-! ## Files -/

inductive HoldsJson (host : Host) (t : Translations) (file : File) : Prop
  | intro {content : Text} (text : File.readText (some file) = .ok content)
      (tree : Json.readOn host content = .ok (.mapping t.pairs))

/-- Translations have texts in mappings, and as many of these as they are deep. -/
theorem obstacle_pairs {host : Host} (t : Translations) {level : Nat} (h : level + t.depth ≤ host.room + 1) :
    Json.obstacleOfPairs? host level t.pairs = none := by
  induction t generalizing level with
  | none => rfl
  | text name value rest ih => exact Json.obstacleOfPairs_cons.2 ⟨rfl, rfl, ih h⟩
  | group name inner rest ihInner ihRest =>
    rw [Translations.depth] at h
    refine Json.obstacleOfPairs_cons.2 ⟨rfl, ?_, ihRest (by omega)⟩
    rw [Json.obstacle?, if_pos (by omega)]
    exact ihInner (by omega)

/-- Written as JSON, translations are held whatever they say, as long as no object has two
members of one name. -/
theorem holdsJson_write {host : Host} {t : Translations} (hplain : Data.havePlain t.pairs = true)
    (hscalar : Data.haveScalar t.pairs = true) (hroom : t.depth ≤ host.room) :
    HoldsJson host t (.holding (Json.write (.mapping t.pairs) ++ "\n")) := by
  have hwritable : Json.obstacle? host 0 (.mapping t.pairs) = none := by
    rw [Json.obstacle?, if_pos (Nat.zero_le _)]
    exact obstacle_pairs t (by omega)
  exact ⟨File.readText_holding (Json.isKept_write hplain hscalar), Json.read_line_plain hplain hwritable⟩

/-- A file that has the translations as the literal of an exported constant: the name of the
constant and the literal are not too long for the scanner. -/
inductive HoldsConstant (limits : Limits) (t : Translations) (file : File) : Prop
  | intro {first : Code} {more : Text} (starts : Extraction.Anchor.startsName first = true)
      (continues : more.all Extraction.Anchor.continuesName = true) (short : more.length ≤ maxNameChars)
      {m : Members} (tree : Spells limits m t) (size : (m.source [] []).length ≤ limits.maxContentLength)
      (before : Gap) (after : Text)
      (text : File.readText (some file) = .ok (constantOpening first more ++ m.source before after))

/-- Translations that both formats can hold. -/
structure Portable (limits : Limits) (t : Translations) : Prop where
  named : t.areNamed limits = true
  shallow : t.depth ≤ limits.maxDepth
  unwrapped : ("translations" : Text) ∉ t.groups

/-- A tree of translations that there is room for has the same keys in either format: JSON gives
each as often as it occurs, a literal once, in the place of the first. -/
theorem load_formats {host : Host} {limits : Limits} {reference directory language : Text} {t : Translations}
    (hlanguage : Deployable reference language) (ht : Portable limits t) (hroom : t.depth ≤ host.room)
    {json constant : File} (hjson : HoldsJson host t json) (hconstant : HoldsConstant limits t constant) :
    (Store.load limits reference directory (some [(language ++ ".json", json)]) host).run.value.map Store.keySets =
        .ok [(language, t.keys)] ∧
      (Store.load limits reference directory (some [(language ++ ".ts", constant)]) host).run.value.map Store.keySets =
        .ok [(language, dedup t.keys)] := by
  constructor
  · obtain ⟨text, tree⟩ := hjson
    refine load_single ⟨hlanguage, .json, rfl, ?_⟩
    rw [value_readKeys text, keysOfText, tree, ← Translations.jsonKeys_pairs ht.named ht.unwrapped]
    rfl
  · obtain ⟨starts, continues, short, tree, size, before, after, text⟩ := hconstant
    refine load_single ⟨hlanguage, .typeScript, rfl, ?_⟩
    rw [value_readKeys text, keysOfText, Attempt.value_bind, Attempt.value_ofLogged,
      keySet_named tree ht.named ht.shallow hroom starts continues short before after size]
    rfl

def Translations.sample : Translations :=
  .group "a" (.text "b" "x" .none) (.text "a.b" "it's" (.group "c" .none .none))

def Translations.sampleMembers : Members :=
  .object ⟨[.newline], .quoted (.ofText "a") rfl, [], [.space]⟩ (by decide +kernel)
    (.leaf ⟨[], .quoted (.ofText "b") rfl, [], []⟩ (.text ⟨'"', "x", Quoted.isQuote_double, by decide +kernel⟩ []) (.last []))
    (.comma [.block " \x7b " (by decide)]
      (.leaf ⟨[.line " 'z': 'z'," (by decide)], .quoted (.ofText "a.b") rfl, [], [.space]⟩ (.text (.ofText "it's") [])
        (.comma [] (.object ⟨[], .quoted (.ofText "c") rfl, [], []⟩ (by decide +kernel) (.done [])
          (.comma [] (.done [.newline]))))))

def Translations.sampleSource : Text :=
  "export const deMessages = \x7b\n'a': \x7b'b':\"x\"\x7d/* \x7b */,// 'z': 'z',\n" ++
    "'a.b': 'it\\'s','c':\x7b\x7d,\n\x7d;\n"

theorem spells_sample : Spells {} Translations.sampleMembers Translations.sample := by
  have hb : (⟨'"', "x", Quoted.isQuote_double, by decide +kernel⟩ : Quoted).denoted = "x" := by decide +kernel
  have hlast : SpellsTail {} (.comma [] (.done [.newline])) .none := .comma [] (.done [.newline])
  refine .group [.newline] [] [.space] "a" _ (.text [] [] [] "b" hb (by decide) (.last [])) (.comma _ ?_)
  refine .text _ [] [.space] "a.b" (denoted_ofText "it's") (by decide +kernel) (.comma [] ?_)
  exact .group [] [] [] "c" _ (.done []) hlast

theorem load_formats_sample :
    (Store.load {} "en" "tr" (some [(("de" : Text) ++ ".json",
        .holding (Json.write (.mapping Translations.sample.pairs) ++ "\n"))])).run.value.map Store.keySets =
          .ok ([("de", ["a.b", "a.b"])] : List (Text × List Text)) ∧
      (Store.load {} "en" "tr" (some [(("de" : Text) ++ ".ts", .holding Translations.sampleSource)])).run.value.map
          Store.keySets =
        .ok ([("de", ["a.b"])] : List (Text × List Text)) := by
  have hlanguage : Deployable "en" "de" := deployable_iff.1 (by decide +kernel)
  have hportable : Portable {} Translations.sample := ⟨by decide +kernel, by decide +kernel, by decide +kernel⟩
  have hroom : Translations.sample.depth ≤ ({} : Host).room := by decide +kernel
  have hjson := holdsJson_write (t := Translations.sample) (by decide +kernel) (by decide +kernel) hroom
  have hsource : constantOpening 'd' "e" ++ Translations.sampleMembers.source [] ";\n" = Translations.sampleSource := by
    decide +kernel
  have htext : File.readText (some (.holding Translations.sampleSource)) =
      .ok (constantOpening 'd' "e" ++ Translations.sampleMembers.source [] ";\n") := by
    rw [hsource]
    exact File.readText_holding (by decide +kernel)
  have hconstant : HoldsConstant {} Translations.sample (.holding Translations.sampleSource) :=
    .intro (by decide) (by decide +kernel) (by decide) spells_sample (by decide +kernel) [] ";\n" htext
  have hkeys : Translations.sample.keys = (["a.b", "a.b"] : List Text) := by decide +kernel
  have hdedup : dedup Translations.sample.keys = (["a.b"] : List Text) := by decide +kernel
  obtain ⟨hfirst, hsecond⟩ := load_formats hlanguage hportable hroom hjson hconstant
  rw [hkeys] at hfirst
  rw [hdedup] at hsecond
  exact ⟨hfirst, hsecond⟩

theorem load_nested (directory : Text) :
    (Store.load { maxDepth := 5000 } "en" directory (some [("de.ts",
      .holding (constantOpening 'd' "e" ++ nestedText 1500))])).run.value = .error (.plain .tooDeep) := by
  have hsource : nestedText 1500 = (Members.nested 1500).source [] [] := nestedText_eq 1500
  have hkept : (constantOpening 'd' "e" ++ nestedText 1500).all File.isKept = true := by
    simp only [nestedText, List.all_append, List.all_flatten, List.all_replicate, Bool.and_eq_true]
    decide +kernel
  have hmessages : messages? (constantOpening 'd' "e" ++ nestedText 1500) = some (nestedText 1500) := by
    rw [hsource]
    exact messages_named (by decide) (by decide +kernel) (by decide) [] _ []
  have hsize : (nestedText 1500).length ≤ ({ maxDepth := 5000 } : Limits).maxContentLength := by
    rw [length_nestedText]
    decide
  have hover : Overflows {} { maxDepth := 5000 } [] (nestedText 1500) :=
    (overflows_nested (by decide) [] 1500).2 ⟨by decide, by decide⟩
  refine value_load_ends List.mem_cons_self ⟨"de", .typeScript, deployable_iff.1 (by decide +kernel), rfl, ?_⟩
  exact .typeScript (File.readText_holding hkept) hmessages hsize hover

/-- `k` in JSON, as a constant whose name has one character too many, and with white space
in front of the colon that the scanner does not know; and a constant for which there is no room. -/
theorem load_formats_differ :
    (Store.load {} "en" "tr" (some [("de.json", .holding "\x7b\"k\": \"v\"\x7d")])).run.value.map Store.keySets =
        .ok ([("de", ["k"])] : List (Text × List Text)) ∧
      (Store.load {} "en" "tr" (some [("de.ts",
          .holding (constantOpening 'a' (List.replicate 201 ('a' : Code)) ++ "\x7b'k': 'v'\x7d;\n"))])).run.value.map
          Store.keySets =
        .ok ([("de", [])] : List (Text × List Text)) ∧
      (Store.load {} "en" "tr" (some [("de.ts",
          .holding "export const deMessages = \x7b'k'\u3000: 'v'\x7d;\n")])).run.value.map Store.keySets =
        .ok ([("de", [])] : List (Text × List Text)) ∧
      (Store.load { maxDepth := 5000 } "en" "tr" (some [("de.ts",
          .holding (constantOpening 'd' "e" ++ nestedText 1500))])).run.value = .error (.plain .tooDeep) := by
  refine ⟨?_, ?_, ?_, load_nested "tr"⟩
  all_goals
    apply ok_of_toOption
    decide +kernel

end MessageCatalog.Artifact
