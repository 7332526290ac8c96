/-
  MessageCatalog.Proofs.Literal.Render — flattening undoes rendering.

  A rendered table is one of the layouts of a literal: a member a line, its name and its
  text both quoted. What `quote` writes for one code point is read back as that code point
  by whoever reads escapes, and is passed as a whole by whoever only skips strings.

  Proved: flattening a rendered table gives its valid entries and its other keys
  (`flatten_render`).
-/

import MessageCatalog.Proofs.Table
import MessageCatalog.Proofs.Literal.Flatten
import MessageCatalog.Proofs.Literal.Room

namespace MessageCatalog.Literal

open Source

/-! ## Quoting -/

def quoteCode (c : Code) : Text :=
  if c == '\\' then ['\\', '\\']
  else if c == '\'' then ['\\', '\'']
  else if c == '\n' then ['\\', 'n']
  else if c == '\r' then ['\\', 'r']
  else if c == '\t' then ['\\', 't']
  else if c == 0 then ['\\', '0']
  else [c]

/-- A code point is written as itself, or as an escape of one letter that denotes it. -/
theorem quoteCode_cases (c : Code) :
    (∃ d : Code, quoteCode c = [('\\' : Code), d] ∧ d ≠ '\r' ∧ ∀ r, escape (d :: r) = ([c], 1)) ∨
      quoteCode c = [c] ∧ c ≠ '\\' ∧ c ≠ '\'' ∧ c ≠ '\n' := by
  by_cases h₁ : c = '\\'
  · exact .inl ⟨'\\', by rw [h₁]; rfl, by decide, fun r => by rw [h₁]; rfl⟩
  by_cases h₂ : c = '\''
  · exact .inl ⟨'\'', by rw [h₂]; rfl, by decide, fun r => by rw [h₂]; rfl⟩
  by_cases h₃ : c = '\n'
  · exact .inl ⟨'n', by rw [h₃]; rfl, by decide, fun r => by rw [h₃]; rfl⟩
  by_cases h₄ : c = '\r'
  · exact .inl ⟨'r', by rw [h₄]; rfl, by decide, fun r => by rw [h₄]; rfl⟩
  by_cases h₅ : c = '\t'
  · exact .inl ⟨'t', by rw [h₅]; rfl, by decide, fun r => by rw [h₅]; rfl⟩
  by_cases h₆ : c = 0
  · exact .inl ⟨'0', by rw [h₆]; rfl, by decide, fun r => by rw [h₆]; rfl⟩
  · refine .inr ⟨?_, h₁, h₂, h₃⟩
    simp only [quoteCode, beq_iff_eq, h₁, h₂, h₃, h₄, h₅, h₆, if_false]

theorem replaced_other {c d : Code} (h : c ≠ d) (part : Text) : replaced d part [c] = [c] := by
  simp [replaced, h]

theorem replaced_append (c : Code) (part s t : Text) :
    replaced c part (s ++ t) = replaced c part s ++ replaced c part t := List.flatMap_append

theorem replaced_single (c : Code) :
    replaced 0 "\\0" (replaced '\t' "\\t" (replaced '\r' "\\r" (replaced '\n' "\\n"
      (replaced '\'' "\\'" (replaced '\\' "\\\\" [c]))))) = quoteCode c := by
  by_cases h₁ : c = '\\'
  · rw [h₁]; rfl
  by_cases h₂ : c = '\''
  · rw [h₂]; rfl
  by_cases h₃ : c = '\n'
  · rw [h₃]; rfl
  by_cases h₄ : c = '\r'
  · rw [h₄]; rfl
  by_cases h₅ : c = '\t'
  · rw [h₅]; rfl
  by_cases h₆ : c = 0
  · rw [h₆]; rfl
  rw [replaced_other h₁, replaced_other h₂, replaced_other h₃, replaced_other h₄, replaced_other h₅,
    replaced_other h₆]
  simp only [quoteCode, beq_iff_eq, h₁, h₂, h₃, h₄, h₅, h₆, if_false]

/-- Escaping one kind of character after the other is escaping each where it stands: only
the backslashes could be escaped twice, and they come first. -/
theorem quote_eq (t : Text) : quote t = ("'" : Text) ++ t.flatMap quoteCode ++ "'" := by
  have hescaped : replaced 0 "\\0" (replaced '\t' "\\t" (replaced '\r' "\\r" (replaced '\n' "\\n"
      (replaced '\'' "\\'" (replaced '\\' "\\\\" t))))) = t.flatMap quoteCode := by
    induction t with
    | nil => rfl
    | cons c t ih =>
      rw [List.flatMap_cons, ← ih, ← replaced_single, ← List.singleton_append]
      simp only [replaced_append]
  rw [quote, hescaped]

theorem isPlain_quoted (t : Text) : isPlain '\'' (t.flatMap quoteCode) = true := by
  induction t with
  | nil => rfl
  | cons c t ih =>
    rw [List.flatMap_cons]
    rcases quoteCode_cases c with ⟨d, hq, hd, -⟩ | ⟨hq, hb, hquote, hn⟩
    · rw [hq, List.cons_append, List.cons_append, List.nil_append, isPlain, if_pos (beq_self_eq_true _),
        beq_eq_false_iff_ne.2 hd, ih]
      rfl
    · rw [hq, List.cons_append, List.nil_append, isPlain_cons hb hquote hn (fun h => absurd h (by decide)), ih]

theorem decode_quoted (t : Text) : decode (t.flatMap quoteCode) = t := by
  induction t with
  | nil => rw [List.flatMap_nil, decode]
  | cons c t ih =>
    rw [List.flatMap_cons]
    rcases quoteCode_cases c with ⟨d, hq, -, hd⟩ | ⟨hq, hb, -, -⟩
    · rw [hq, List.cons_append, List.cons_append, List.nil_append, decode, if_pos (beq_self_eq_true _), hd,
        List.drop_succ_cons, List.drop_zero, ih]
      rfl
    · rw [hq, List.cons_append, List.nil_append, decode, if_neg (mt beq_iff_eq.1 hb), ih]

theorem length_le_quoted (t : Text) : t.length ≤ (t.flatMap quoteCode).length := by
  induction t with
  | nil => exact Nat.le_refl 0
  | cons c t ih =>
    have hc : 1 ≤ (quoteCode c).length := by
      rcases quoteCode_cases c with ⟨d, hq, -, -⟩ | ⟨hq, -, -, -⟩
      · rw [hq, List.length_cons]
        omega
      · rw [hq]
        exact Nat.le_refl 1
    rw [List.flatMap_cons, List.length_append, List.length_cons]
    omega

theorem quoteCode_segment {c : Code} (h : Key.continuesSegment c = true) : quoteCode c = [c] := by
  have hall : ∀ c < 128, Key.continuesSegment c = true → quoteCode c = [c] := by decide +kernel
  exact hall c (Key.continuesSegment_lt h) h

/-- A key is quoted as it is. -/
theorem quoted_key {name : Text} (h : Key.isValid name = true) : name.flatMap quoteCode = name := by
  have hall : ∀ (fresh : Bool) (t : Text), Key.accepts fresh t = true → t.flatMap quoteCode = t := by
    intro fresh t
    induction t generalizing fresh with
    | nil => exact fun _ => rfl
    | cons c t ih =>
      intro h
      have hcode : quoteCode c = [c] ∧ t.flatMap quoteCode = t := by
        rw [Key.accepts] at h
        split at h
        · rw [Bool.and_eq_true] at h
          exact ⟨quoteCode_segment (Key.continues_of_starts h.1), ih false h.2⟩
        split at h
        · rename_i hdot
          exact ⟨by rw [hdot]; rfl, ih true h⟩
        · rw [Bool.and_eq_true] at h
          exact ⟨quoteCode_segment h.1, ih false h.2⟩
      rw [List.flatMap_cons, hcode.1, hcode.2, List.singleton_append]
  exact hall true name h

def Source.Quoted.ofText (t : Text) : Quoted := .single (t.flatMap quoteCode) (isPlain_quoted t)

theorem print_ofText (t : Text) : (Quoted.ofText t).print = quote t := (quote_eq t).symm

theorem denoted_ofText (t : Text) : (Quoted.ofText t).denoted = t := decode_quoted t

/-! ## Tables -/

/-- A member for each entry, `indent` in front of its name, and `last` behind them all. -/
def Source.Members.ofEntries (indent last : Gap) : List (Text × Text) → Members
  | [] => .done last
  | e :: es =>
    .leaf ⟨indent, .quoted (.ofText e.1) rfl, [], [.space]⟩ (.text (.ofText e.2) [])
      (.comma [] (ofEntries indent last es))

theorem exists_gap {t : Text} (h : t.all isBlank = true) : ∃ g : Gap, g.print = t := by
  induction t with
  | nil => exact ⟨[], rfl⟩
  | cons c t ih =>
    simp only [List.all_cons, Bool.and_eq_true] at h
    obtain ⟨g, hg⟩ := ih h.2
    exact ⟨.blank c h.1 :: g, congrArg (c :: ·) hg⟩

theorem print_ofEntries (indent last : Gap) (es : List (Text × Text)) :
    (Members.ofEntries indent last es).print = es.flatMap (renderEntry indent.print) ++ last.print := by
  induction es with
  | nil => rfl
  | cons e es ih =>
    rw [Members.ofEntries, Members.print, Tail.print, ih, List.flatMap_cons, renderEntry]
    simp [Head.print, Name.print, Leaf.print, print_ofText, Gap.print, Trivium.print, Trivium.space, Text.ofString]

theorem texts_ofEntries (indent last : Gap) (es : List (Text × Text)) :
    (Members.ofEntries indent last es).texts [] = es.map fun e => ⟨[e.1], e.2⟩ := by
  induction es with
  | nil => rfl
  | cons e es ih =>
    rw [Members.ofEntries, Members.texts, Tail.texts, ih]
    simp [Leaf.denoted?, Name.denoted, denoted_ofText]

theorem keyed_ofEntries (limits : Limits) (indent last : Gap) (es : List (Text × Text)) :
    keyed limits [] ((Members.ofEntries indent last es).texts []) = es := by
  have hall : ∀ x ∈ es.map fun e => (⟨[e.1], e.2⟩ : Entry),
      decide (x.path.length ≤ limits.maxDepth + 1) = true := by
    intro x hx
    obtain ⟨e, -, rfl⟩ := List.mem_map.1 hx
    simp
  rw [texts_ofEntries, keyed, List.filter_eq_self.2 hall, List.map_map]
  simp [Key.under, Text.joinWith, Function.comp_def]

def entriesFit (limits : Limits) (es : List (Text × Text)) : Bool :=
  es.all fun e => (e.1.flatMap quoteCode).length ≤ limits.maxKeyLength &&
    (e.2.flatMap quoteCode).length < limits.maxValueLength

theorem fits_ofEntries {limits : Limits} (indent last : Gap) {es : List (Text × Text)}
    (h : entriesFit limits es = true) : (Members.ofEntries indent last es).fits limits = true := by
  induction es with
  | nil => rfl
  | cons e es ih =>
    simp only [entriesFit, List.all_cons, Bool.and_eq_true, decide_eq_true_eq] at h
    obtain ⟨⟨hk, hv⟩, hes⟩ := h
    have hle := length_le_quoted e.2
    simp only [Members.ofEntries, Members.fits, Tail.fits, Bool.and_eq_true]
    refine ⟨⟨decide_eq_true hk, ?_⟩, ih hes⟩
    simp only [Leaf.fits, List.map_nil, List.all_cons, List.all_nil, List.flatMap_nil, List.append_nil,
      Bool.and_true, Bool.and_eq_true, decide_eq_true_eq, denoted_ofText]
    exact ⟨hv, by omega⟩

theorem joinWith_lines (first last : Text) (ls : List Text) :
    Text.joinWith "\n" (first :: (ls ++ [last])) =
      first ++ (ls.flatMap fun l => ('\n' : Code) :: l) ++ ('\n' : Code) :: last := by
  induction ls generalizing first with
  | nil => simp [Text.joinWith, List.intercalate, List.intersperse, Text.ofString]
  | cons l ls ih =>
    rw [Text.joinWith_cons (by simp), List.cons_append, ih]
    simp [Text.ofString]

theorem render_source {indent : Text} (h : indent.all isBlank = true) (es : List (Text × Text)) :
    ∃ above last : Gap, render indent es = (Members.ofEntries above last es).source [] [] := by
  obtain ⟨g, rfl⟩ := exists_gap h
  cases es with
  | nil => exact ⟨[], [], rfl⟩
  | cons e es =>
    have hline : ∀ es : List (Text × Text),
        (es.map (renderEntry (Gap.print g))).flatMap (fun l => ('\n' : Code) :: l) =
          es.flatMap (renderEntry (Gap.print (.newline :: g))) := by
      intro es
      rw [List.flatMap_map]
      rfl
    -- each member starts with the line feed that ends the line in front of it
    refine ⟨.newline :: g, [.newline], ?_⟩
    rw [render, if_neg (by simp), List.cons_append, joinWith_lines, hline, Members.source, print_ofEntries]
    simp [Gap.print, Trivium.print, Trivium.newline, Text.ofString]

theorem height_ofEntries (indent last : Gap) (es : List (Text × Text)) :
    (Members.ofEntries indent last es).height = 0 := by
  induction es with
  | nil => rfl
  | cons e es ih => exact ih

/-- No object is nested in a rendered table. -/
theorem overflows_render {host : Host} {limits : Limits} {es : List (Text × Text)} {indent : Text}
    (hindent : indent.all isBlank = true) (hfit : entriesFit limits es = true) (base : Text) :
    ¬ Overflows host limits base (render indent es) := by
  obtain ⟨above, last, hsource⟩ := render_source hindent es
  rw [hsource, Members.source, overflows_source (fits_ofEntries above last hfit), height_ofEntries]
  omega

theorem flatten_entries {limits : Limits} {t : Table Text Text} {indent : Text}
    (hindent : indent.all isBlank = true) (hfit : entriesFit limits t.entries = true)
    (hlen : (render indent t.entries).length ≤ limits.maxContentLength) :
    (flatten limits [] (render indent t.entries)).run.value = .ok (tabulate t.entries) := by
  obtain ⟨above, last, hsource⟩ := render_source hindent t.entries
  rw [flatten_run [] hlen, hsource, source_entries (fits_ofEntries above last hfit), keyed_ofEntries]

theorem tabulate_table (t : Table Text Text) :
    (tabulate t.entries).entries.entries = (t.entries.filter fun e => Key.isValid e.1) ∧
      (tabulate t.entries).rejected.toList = (t.entries.filter fun e => !Key.isValid e.1).map (·.1) := by
  have hkeys : ∀ p : Text × Text → Bool, ((t.entries.filter p).map (·.1)).Pairwise fun a b => (a == b) = false :=
    fun p => t.distinct.sublist (List.filter_sublist.map _)
  exact ⟨Table.entries_ofList (hkeys _), Distinct.toList_ofList (hkeys _)⟩

/-- Flattening undoes rendering: it gives the entries with a valid key, texts unchanged, and
rejects the other keys, each in the order of the table. -/
theorem flatten_render (limits : Limits) (t : Table Text Text) (indent : Text)
    (hindent : indent.all isBlank = true) (hfit : entriesFit limits t.entries = true)
    (hlen : (render indent t.entries).length ≤ limits.maxContentLength) :
    ∃ f : Flattened, (flatten limits [] (render indent t.entries)).run.value = .ok f ∧
      f.entries.entries = (t.entries.filter fun e => Key.isValid e.1) ∧
      f.rejected.toList = (t.entries.filter fun e => !Key.isValid e.1).map (·.1) :=
  ⟨tabulate t.entries, flatten_entries hindent hfit hlen, tabulate_table t⟩

def sampleTable : Table Text Text :=
  .ofList [("a.b", "it's // \x7b\n\\"), ("a b", "\x7d', c: '"), ("$", "")]

theorem flatten_render_sample :
    ∃ f : Flattened, (flatten {} [] (render [9, 32] sampleTable.entries)).run.value = .ok f ∧
      f.entries.entries = ([("a.b", "it's // \x7b\n\\"), ("$", "")] : List (Text × Text)) ∧
      f.rejected.toList = (["a b"] : List Text) := by
  have hindent : ([9, 32] : Text).all isBlank = true := by decide
  have hfit : entriesFit {} sampleTable.entries = true := by decide +kernel
  have hlen : (render [9, 32] sampleTable.entries).length ≤ ({} : Limits).maxContentLength := by decide +kernel
  obtain ⟨f, hrun, hentries, hrejected⟩ := flatten_render {} sampleTable [9, 32] hindent hfit hlen
  exact ⟨f, hrun, by rw [hentries]; decide +kernel, by rw [hrejected]; decide +kernel⟩

end MessageCatalog.Literal
