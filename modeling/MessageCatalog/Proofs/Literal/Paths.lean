/-
  MessageCatalog.Proofs.Literal.Paths — the texts of any literal, and the names that lead to them.

  The scan carries the key of the object that it is in, and leaves unread what is too deep. What
  it finds depends on neither: `textsIn` has every text, well formed or not what stands around
  it, with the names that lead to it. A run emits those that are not too deep, each under the key
  that its names are added to (`flatten_texts`).

  Added to a base, names are joined by dots. Without one, the empty names in front of all others
  are lost. So a base is put in front of each key and changes nothing else, if no object of the
  root has an empty name (`flatten_prefixed`); if one has, its texts are found without a base and
  rejected under one (`flatten_prefixed_differs`).
-/

import MessageCatalog.Proofs.Literal.Flatten

namespace MessageCatalog.Literal

open Source

/-! ## Texts and names -/

def Source.Entry.below (name : Text) (e : Entry) : Entry := ⟨name :: e.path, e.value⟩

def textsIn (limits : Limits) (t : Text) : List Entry :=
  match _h : front limits t with
  | .nothing => []
  | .noise rest => textsIn limits rest
  | .property name c r =>
    if c == '{' then
      match _hc : closingBrace 1 r with
      | none => []
      | some close => (textsIn limits (Text.upTo r close)).map (Entry.below name) ++ textsIn limits close.tail
    else if _hq : isQuote c = true then
      ((readValue limits (c :: r)).value.map (Entry.mk [name])).toList ++
        textsIn limits (skipValue [] limits.maxValueLength (readValue limits (c :: r)).rest)
    else textsIn limits (skipValue [] limits.maxValueLength (c :: r))
termination_by t.length
decreasing_by
  · exact length_front_noise_lt _h
  · have := length_front_property_lt _h
    simp only [Text.upTo, List.length_take]
    omega
  · have := length_front_property_lt _h
    have := length_closingBrace_le _hc
    simp only [List.length_tail]
    omega
  · have := length_front_property_lt _h
    have := length_readValue_lt limits r _hq
    have := length_skipValue_le [] limits.maxValueLength (readValue limits (c :: r)).rest
    simp only [List.length_cons] at *
    omega
  · have := length_front_property_lt _h
    have := length_skipValue_le [] limits.maxValueLength (c :: r)
    simp only [List.length_cons] at *
    omega

/-- The texts of a property, and of all that follows it. -/
def propertyTexts (limits : Limits) (name : Text) (c : Code) (r : Text) : List Entry :=
  if c == '{' then
    match closingBrace 1 r with
    | none => []
    | some close => (textsIn limits (Text.upTo r close)).map (Entry.below name) ++ textsIn limits close.tail
  else if isQuote c then
    ((readValue limits (c :: r)).value.map (Entry.mk [name])).toList ++
      textsIn limits (skipValue [] limits.maxValueLength (readValue limits (c :: r)).rest)
  else textsIn limits (skipValue [] limits.maxValueLength (c :: r))

theorem textsIn_eq (limits : Limits) (t : Text) :
    textsIn limits t =
      match front limits t with
      | .nothing => []
      | .noise rest => textsIn limits rest
      | .property name c r => propertyTexts limits name c r := by
  rw [textsIn.eq_def]
  split
  · rename_i h
    rw [h]
  · rename_i rest h
    rw [h]
  · rename_i name c r h
    rw [h]
    simp only [propertyTexts]
    by_cases hc : (c == '{') = true
    · rw [if_pos hc, if_pos hc]
      split <;> (rename_i hclose; rw [hclose])
    · rw [if_neg hc, if_neg hc]
      split <;> rfl

theorem path_ne_nil (limits : Limits) (t : Text) : ∀ e ∈ textsIn limits t, e.path ≠ [] := by
  fun_induction textsIn limits t with
  | case1 => intro e he; cases he
  | case2 _ _ _ ih => exact ih
  | case3 => intro e he; cases he
  | case4 t name c r _ _ close _ ih₂ ih₁ =>
    intro e he
    rcases List.mem_append.1 he with he | he
    · obtain ⟨e, _, rfl⟩ := List.mem_map.1 he
      exact List.cons_ne_nil _ _
    · exact ih₁ e he
  | case5 t name c r _ _ _ ih =>
    intro e he
    rcases List.mem_append.1 he with he | he
    · obtain ⟨v, _, rfl⟩ := Option.map_eq_some_iff.1 (Option.mem_toList.1 he)
      exact List.cons_ne_nil _ _
    · exact ih e he
  | case6 _ _ _ _ _ _ _ ih => exact ih

/-! ## What is emitted -/

/-- What is emitted for a text: the depth at which it stands, its key and itself. -/
def Emission.tagged? : Emission → Option (Nat × Text × Text)
  | .leaf depth key value => some (depth, key, value)
  | .tooDeep _ => none

/-- The key that the names of an entry make below `base`, added one by one, and its text. -/
def Source.Entry.keyed (base : Text) (e : Entry) : Text × Text := (e.path.foldl Key.under base, e.value)

/-- Whether no object around a text is too deep, if the texts stand at `depth`. -/
def Source.Entry.isWithin (limits : Limits) (depth : Nat) (e : Entry) : Bool :=
  depth + e.path.length ≤ limits.maxDepth + 1

theorem isWithin_below (limits : Limits) (depth : Nat) (name : Text) :
    Entry.isWithin limits depth ∘ Entry.below name = Entry.isWithin limits (depth + 1) := by
  funext e
  simp only [Function.comp_apply, Entry.isWithin, Entry.below, List.length_cons]
  congr 2
  omega

theorem filter_isWithin_eq_nil {limits : Limits} {depth : Nat} (h : limits.maxDepth < depth) (t : Text) :
    (textsIn limits t).filter (Entry.isWithin limits depth) = [] := by
  refine List.filter_eq_nil_iff.2 fun e he hwithin => ?_
  have hpath := List.length_pos_iff.2 (path_ne_nil limits t e he)
  have hle := of_decide_eq_true hwithin
  omega

/-- An entry as it is emitted by a scan at `depth`: its own depth, its key and its text. -/
def Source.Entry.tagged (base : Text) (depth : Nat) (e : Entry) : Nat × Text × Text :=
  (depth + e.path.length - 1, e.keyed base)

theorem tagged_below (base name : Text) (depth : Nat) :
    Entry.tagged base depth ∘ Entry.below name = Entry.tagged (Key.under base name) (depth + 1) := by
  funext e
  simp only [Function.comp_apply, Entry.tagged, Entry.keyed, Entry.below, List.length_cons, List.foldl_cons]
  congr 2
  omega

/-- The scan emits what is in the text and not too deep, below the base. -/
theorem scan_tagged (limits : Limits) (base : Text) {depth : Nat} (hd : depth ≤ limits.maxDepth) (t : Text) :
    (scan limits base depth t).filterMap Emission.tagged? =
      ((textsIn limits t).filter (Entry.isWithin limits depth)).map (Entry.tagged base depth) := by
  fun_induction textsIn limits t generalizing base depth with
  | case1 t hf => rw [scan_eq, hf]; rfl
  | case2 t rest hf ih => rw [scan_eq, hf]; exact ih base hd
  | case3 t name c r hf hc hclose =>
    rw [scan_eq, hf]
    simp only [scanProperty, if_pos hc, hclose]
    rfl
  | case4 t name c r hf hc close hclose ih₂ ih₁ =>
    rw [scan_eq, hf]
    simp only [scanProperty, if_pos hc, hclose]
    rw [List.filterMap_append, List.filter_append, List.map_append, ih₁ base hd, List.filter_map, isWithin_below]
    congr 1
    by_cases hdeep : limits.maxDepth < depth + 1
    · -- what is in an object that is too deep is too deep itself
      rw [if_pos hdeep, filter_isWithin_eq_nil hdeep]
      rfl
    · rw [if_neg hdeep, ih₂ _ (Nat.le_of_not_lt hdeep), List.map_map, tagged_below]
  | case5 t name c r hf hc hq ih =>
    rw [scan_eq, hf]
    simp only [scanProperty, if_neg hc, if_pos hq]
    rw [List.filterMap_append, List.filter_append, List.map_append, ih base hd]
    congr 1
    cases (readValue limits (c :: r)).value with
    | none => rfl
    | some v => simp [Emission.tagged?, Entry.isWithin, Entry.tagged, Entry.keyed, hd]
  | case6 t name c r hf hc hq ih =>
    rw [scan_eq, hf]
    simp only [scanProperty, if_neg hc, if_neg hq]
    exact ih base hd

/-- The texts of the literal in a text that are not too deep. -/
def textsOf (limits : Limits) (t : Text) : List Entry :=
  match objectLiteral t with
  | none => []
  | some b => (textsIn limits b.inside).filter (Entry.isWithin limits 0)

theorem path_ne_nil_of_mem {limits : Limits} {t : Text} {e : Entry} (he : e ∈ textsOf limits t) : e.path ≠ [] := by
  unfold textsOf at he
  split at he
  · cases he
  · exact path_ne_nil limits _ e (List.mem_filter.1 he).1

theorem emissions_tagged (limits : Limits) (base t : Text) :
    (emissions limits base t).filterMap Emission.tagged? = (textsOf limits t).map (Entry.tagged base 0) := by
  unfold emissions textsOf
  cases objectLiteral t with
  | none => rfl
  | some b => exact scan_tagged limits base (Nat.zero_le _) b.inside

theorem entries_eq_tagged (es : List Emission) :
    es.filterMap Emission.entry? = (es.filterMap Emission.tagged?).map (·.2) := by
  have hentry : Emission.entry? = fun e => e.tagged?.map (·.2) := funext fun e => by cases e <;> rfl
  rw [List.map_filterMap, hentry]

theorem emissions_texts (limits : Limits) (base t : Text) :
    (emissions limits base t).filterMap Emission.entry? = (textsOf limits t).map (Entry.keyed base) := by
  rw [entries_eq_tagged, emissions_tagged, List.map_map]
  rfl

/-- Whatever the base, the same texts are sorted by the grammar. -/
theorem flatten_texts {limits : Limits} {t : Text} (base : Text) (h : t.length ≤ limits.maxContentLength) :
    (flatten limits base t).run.value = .ok (tabulate ((textsOf limits t).map (Entry.keyed base))) := by
  rw [flatten_run base h, emissions_texts]

/-! ## Names as keys -/

theorem foldl_under {base : Text} (h : base ≠ []) (path : List Text) :
    path.foldl Key.under base = Text.joinWith "." (base :: path) := by
  induction path generalizing base with
  | nil => exact (Text.joinWith_single _ base).symm
  | cons n path ih =>
    have hbase : base ++ ('.' : Code) :: n ≠ [] := by simp
    rw [List.foldl_cons, under_below h, ih hbase, Text.joinWith_cons (List.cons_ne_nil n path)]
    cases path with
    | nil => simp [Text.joinWith_single]; rfl
    | cons m path =>
      rw [Text.joinWith_cons (List.cons_ne_nil m path), Text.joinWith_cons (List.cons_ne_nil m path)]
      simp
      rfl

/-- The names that count without a base: an empty one does if no other follows it. -/
def significant : List Text → List Text
  | [] :: n :: path => significant (n :: path)
  | path => path

theorem foldl_under_nil (path : List Text) : path.foldl Key.under [] = Text.joinWith "." (significant path) := by
  fun_induction significant path with
  | case1 n path ih => exact ih
  | case2 path h =>
    match path with
    | [] => rfl
    | [n] => exact (Text.joinWith_single _ n).symm
    | n :: m :: path =>
      -- with a name in front that is not empty, the rest is added below it
      have hn : n ≠ [] := fun e => h m path (by rw [e])
      exact foldl_under hn (m :: path)

theorem significant_eq_self {path : List Text} (h : path.head? = some [] → path.length = 1) :
    significant path = path := by
  match path with
  | [] :: n :: path => cases h rfl
  | [] => rfl
  | [[]] => rfl
  | (c :: n) :: path => rfl

/-! ## A base in front of every key -/

theorem under_beq {p : Text} (hp : p ≠ []) (k k' : Text) : (Key.under p k == Key.under p k') = (k == k') := by
  rw [under_below hp, under_below hp, Bool.eq_iff_iff, beq_iff_eq, beq_iff_eq, List.append_cancel_left_eq,
    List.cons.injEq]
  exact and_iff_right rfl

theorem isValid_under {p : Text} (hp : Key.isValid p = true) (k : Text) :
    Key.isValid (Key.under p k) = Key.isValid k := by
  rw [under_below (Key.ne_nil_of_isValid hp), Key.isValid_join, hp, Bool.true_and]

/-- Keys below a valid one are sorted as they are without it. -/
theorem tabulate_under {p : Text} (hp : Key.isValid p = true) (es : List (Text × Text)) :
    (tabulate (es.map fun e => (Key.under p e.1, e.2))).entries.entries =
        (tabulate es).entries.entries.map (fun e => (Key.under p e.1, e.2)) ∧
      (tabulate (es.map fun e => (Key.under p e.1, e.2))).rejected.toList =
        (tabulate es).rejected.toList.map (Key.under p) := by
  have hbeq := under_beq (Key.ne_nil_of_isValid hp)
  constructor
  · simp only [tabulate, List.filter_map, Function.comp_def, isValid_under hp]
    exact Table.entries_ofList_map hbeq _
  · simp only [tabulate, List.filter_map, List.map_map, Function.comp_def, isValid_under hp]
    have hdedup := Distinct.dedup_map hbeq ((es.filter fun e => !Key.isValid e.1).map (·.1))
    rwa [List.map_map] at hdedup

theorem keyed_under {p : Text} (hp : p ≠ []) {e : Entry} (hne : e.path ≠ [])
    (h : e.path.head? = some [] → e.path.length = 1) :
    e.keyed p = (Key.under p (e.keyed []).1, (e.keyed []).2) := by
  simp only [Entry.keyed, foldl_under hp, foldl_under_nil, significant_eq_self h, under_below hp,
    Text.joinWith_cons hne]
  rfl

/-- A valid base is put in front of every key, and what is accepted, rejected or too large stays
so, if no text stands in an object of the root whose name is empty. -/
theorem flatten_prefixed (limits : Limits) {p : Text} (hp : Key.isValid p = true) (t : Text) :
    (limits.maxContentLength < t.length → ∀ base,
      (flatten limits base t).run.value = .error (.literalTooLarge limits.maxContentLength t.length)) ∧
      (t.length ≤ limits.maxContentLength → ∃ f g : Flattened,
        (flatten limits [] t).run.value = .ok f ∧ (flatten limits p t).run.value = .ok g ∧
          f = tabulate ((textsOf limits t).map fun e => (Text.joinWith "." (significant e.path), e.value)) ∧
          g = tabulate ((textsOf limits t).map fun e => (Text.joinWith "." (p :: e.path), e.value)) ∧
          ((∀ e ∈ textsOf limits t, e.path.head? = some [] → e.path.length = 1) →
            g.entries.entries = f.entries.entries.map (fun e => (Key.under p e.1, e.2)) ∧
              g.rejected.toList = f.rejected.toList.map (Key.under p))) := by
  have hne := Key.ne_nil_of_isValid hp
  refine ⟨fun hlong base => flatten_tooLarge base hlong, fun hlen => ?_⟩
  refine ⟨_, _, flatten_texts [] hlen, flatten_texts p hlen, ?_, ?_, fun hrooted => ?_⟩
  · exact congrArg tabulate (List.map_congr_left fun e _ => by rw [Entry.keyed, foldl_under_nil])
  · exact congrArg tabulate (List.map_congr_left fun e _ => by rw [Entry.keyed, foldl_under hne])
  · have hkeys : (textsOf limits t).map (Entry.keyed p) =
        ((textsOf limits t).map (Entry.keyed [])).map fun e => (Key.under p e.1, e.2) := by
      rw [List.map_map]
      exact List.map_congr_left fun e he => keyed_under hne (path_ne_nil_of_mem he) (hrooted e he)
    rw [hkeys]
    exact tabulate_under hp _

def Source.mixed : Text := "\x7ba: \x7bb: 'x', 'c d': 'y'\x7d, '': 'z', ?!] e: f('g')\na: \x7b'b': \"w\"\x7d\x7d;"

theorem flatten_prefixed_sample :
    (Key.isValid "p.q" = true ∧ Source.mixed.length ≤ ({} : Limits).maxContentLength ∧
        ∀ e ∈ textsOf {} Source.mixed, e.path.head? = some [] → e.path.length = 1) ∧
      ∃ f g : Flattened, (flatten {} [] Source.mixed).run.value = .ok f ∧
        (flatten {} "p.q" Source.mixed).run.value = .ok g ∧
        (f.entries.entries = ([("a.b", "w")] : List (Text × Text)) ∧
          f.rejected.toList = (["a.c d", ""] : List Text)) ∧
        g.entries.entries = ([("p.q.a.b", "w")] : List (Text × Text)) ∧
          g.rejected.toList = (["p.q.a.c d", "p.q."] : List Text) := by
  have hp : Key.isValid "p.q" = true := by decide +kernel
  have hlen : Source.mixed.length ≤ ({} : Limits).maxContentLength := by decide +kernel
  have hrooted : ∀ e ∈ textsOf {} Source.mixed, e.path.head? = some [] → e.path.length = 1 := by decide +kernel
  obtain ⟨f, g, hf, hg, rfl, -, hkeys⟩ := (flatten_prefixed {} hp Source.mixed).2 hlen
  obtain ⟨hentries, hrejected⟩ := hkeys hrooted
  refine ⟨⟨hp, hlen, hrooted⟩, _, g, hf, hg, ⟨?_, ?_⟩, hentries.trans ?_, hrejected.trans ?_⟩
  all_goals decide +kernel

/-- Below the name of the root that is empty, a key is found without a base and rejected with one. -/
theorem flatten_prefixed_differs :
    let t : Text := "\x7b'': \x7ba: 'x'\x7d\x7d"
    ∃ f g : Flattened, (flatten {} [] t).run.value = .ok f ∧ (flatten {} "p" t).run.value = .ok g ∧
      (f.entries.entries = ([("a", "x")] : List (Text × Text)) ∧ f.rejected.toList = []) ∧
      g.entries.entries = [] ∧ g.rejected.toList = (["p..a"] : List Text) := by
  intro t
  have hlen : t.length ≤ ({} : Limits).maxContentLength := by decide +kernel
  refine ⟨_, _, flatten_run [] hlen, flatten_run "p" hlen, ⟨?_, ?_⟩, ?_, ?_⟩
  all_goals decide +kernel

end MessageCatalog.Literal
