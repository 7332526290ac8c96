/-
  MessageCatalog.Proofs.Literal.Dots — the dots of a key, and the depth it stands at.

  A name that is not in quotes has no dot. If no name in quotes has one either, the dots of a key
  are those between its names, so there is at most one for every object around its text but the
  root. A run enters objects of any depth up to the cap. The root is of depth zero, so a path of
  names may be one longer than the cap, and the key has as many dots as the cap, not fewer.

  Proved, however malformed the text is:
  - `flatten_dots`: a key has at most as many dots as its depth, which is at most the cap.
  - `flatten_dots_attained`: for every cap there is a literal with a key of just so many dots.
-/

import MessageCatalog.Proofs.Literal.Nested
import MessageCatalog.Proofs.Literal.Render

namespace MessageCatalog.Literal

open Source

/-! ## Names in quotes -/

/-- `n` is denoted by what stands between two quotes of a kind in the text. Where this is no proper
string, it stands for itself. -/
def Quotes (t n : Text) : Prop :=
  ∃ q raw, isNameQuote q = true ∧ q :: (raw ++ [q]) <:+: t ∧ n = (unquote (q :: (raw ++ [q]))).getD raw

theorem Quotes.mono {s t n : Text} (h : Quotes s n) (hst : s <:+: t) : Quotes t n := by
  obtain ⟨q, raw, hq, hraw, hn⟩ := h
  exact ⟨q, raw, hq, hraw.trans hst, hn⟩

theorem quotedName_quotes {limits : Limits} {q : Code} {body n : Text} (hq : isNameQuote q = true)
    (h : (quotedName limits q body).name = some n) : Quotes (q :: body) n := by
  have hend := nameEnd_suffix q limits.maxKeyLength body
  unfold quotedName at h
  split at h
  · rename_i c r hname
    rw [hname] at hend
    split at h
    · rename_i hc
      obtain rfl := beq_iff_eq.1 hc
      obtain ⟨raw, rfl⟩ := hend
      rw [upTo_append] at h
      obtain rfl := Option.some.inj h
      exact ⟨c, raw, hq, ⟨[], r, by simp⟩, rfl⟩
    · cases h
  · cases h

theorem identifierName_dotless {limits : Limits} {c : Code} {r n : Text} (hc : Key.startsSegment c = true)
    (h : (identifierName limits c r).name = some n) : ('.' : Code) ∉ n := by
  unfold identifierName at h
  dsimp only at h
  split at h
  · obtain rfl := Option.some.inj h
    intro hdot
    rcases List.mem_cons.1 hdot with rfl | hdot
    · exact absurd hc (by decide)
    · have hcontinues := List.all_eq_true.1 List.all_takeWhile _ hdot
      exact absurd hcontinues (by decide)
  · cases h

/-- The name of a property is in quotes, or has no dot. -/
theorem front_name {limits : Limits} {t name r : Text} {c : Code} (h : front limits t = .property name c r) :
    Quotes t name ∨ ('.' : Code) ∉ name := by
  have ht := skipTrivia_suffix t
  unfold front at h
  split at h
  · cases h
  rename_i q body htrivia
  rw [htrivia] at ht
  split at h
  · rename_i hstarts
    dsimp only at h
    split at h
    · cases h
    · rename_i n hn
      have hname : n = name := by
        repeat' split at h
        all_goals cases h
        rfl
      subst hname
      unfold readName at hn
      split at hn
      · rename_i hq
        exact .inl ((quotedName_quotes hq hn).mono ht.isInfix)
      · rename_i hq
        rw [startsName, Bool.or_eq_true] at hstarts
        exact .inr (identifierName_dotless (hstarts.resolve_left hq) hn)
  · cases h

theorem textsIn_names (limits : Limits) (t : Text) :
    ∀ e ∈ textsIn limits t, ∀ n ∈ e.path, Quotes t n ∨ ('.' : Code) ∉ n := by
  -- what holds of the names in a part of the text holds of them in the text
  have hmono {s t : Text} (hst : s <:+: t) {e : Entry} (h : ∀ n ∈ e.path, Quotes s n ∨ ('.' : Code) ∉ n) :
      ∀ n ∈ e.path, Quotes t n ∨ ('.' : Code) ∉ n := fun n hn => (h n hn).imp_left fun hq => hq.mono hst
  fun_induction textsIn limits t with
  | case1 => intro e he; cases he
  | case2 t rest hf ih =>
    have hrest := front_suffix limits t
    rw [hf] at hrest
    exact fun e he => hmono hrest.isInfix (ih e he)
  | case3 => intro e he; cases he
  | case4 t name c r hf hc close hclose ih₂ ih₁ =>
    have hvalue := front_suffix limits t
    rw [hf] at hvalue
    have hr : r <:+ t := suffix_of_cons hvalue
    intro e he
    rcases List.mem_append.1 he with he | he
    · obtain ⟨inner, hinner, rfl⟩ := List.mem_map.1 he
      refine List.forall_mem_cons.2 ⟨front_name hf, hmono ?_ (ih₂ inner hinner)⟩
      exact (List.take_prefix _ r).isInfix.trans hr.isInfix
    · refine hmono ?_ (ih₁ e he)
      exact ((List.tail_suffix close).trans ((closingBrace_suffix hclose).1.trans hr)).isInfix
  | case5 t name c r hf hc hq ih =>
    have hvalue := front_suffix limits t
    rw [hf] at hvalue
    intro e he
    rcases List.mem_append.1 he with he | he
    · obtain ⟨v, _, rfl⟩ := Option.map_eq_some_iff.1 (Option.mem_toList.1 he)
      exact List.forall_mem_singleton.2 (front_name hf)
    · refine hmono ?_ (ih e he)
      exact ((skipValue_suffix _ _ _).trans ((readValue_suffix limits _).trans hvalue)).isInfix
  | case6 t name c r hf hc hq ih =>
    have hvalue := front_suffix limits t
    rw [hf] at hvalue
    exact fun e he => hmono ((skipValue_suffix _ _ _).trans hvalue).isInfix (ih e he)

theorem textsOf_names (limits : Limits) (t : Text) :
    ∀ e ∈ textsOf limits t, ∀ n ∈ e.path, Quotes t n ∨ ('.' : Code) ∉ n := by
  unfold textsOf
  split
  · intro e he; cases he
  · rename_i b hb
    have hinside : b.inside <:+: t :=
      (List.drop_suffix 1 _).isInfix.trans ((List.take_prefix _ _).isInfix.trans (objectLiteral_suffix hb).isInfix)
    intro e he n hn
    exact (textsIn_names limits b.inside e (List.mem_filter.1 he).1 n hn).imp_left fun hq => hq.mono hinside

/-! ## Dots -/

def dots (k : Text) : Nat := k.count ('.' : Code)

theorem dots_eq_zero {k : Text} (h : ('.' : Code) ∉ k) : dots k = 0 := List.count_eq_zero_of_not_mem h

theorem dots_under_le (base n : Text) : dots (Key.under base n) ≤ dots base + 1 + dots n := by
  unfold Key.under
  split
  · omega
  · unfold dots
    rw [List.count_append, List.count_cons_self]
    omega

theorem dots_path_le {path : List Text} (h : ∀ n ∈ path, ('.' : Code) ∉ n) (base : Text) :
    dots (path.foldl Key.under base) ≤ dots base + path.length := by
  induction path generalizing base with
  | nil => exact Nat.le_refl _
  | cons n path ih =>
    obtain ⟨hn, hpath⟩ := List.forall_mem_cons.1 h
    have hhead := dots_under_le base n
    have htail := ih hpath (Key.under base n)
    rw [dots_eq_zero hn] at hhead
    rw [List.foldl_cons, List.length_cons]
    omega

/-- The first name has no dot in front of it. -/
theorem dots_keyed_le {e : Entry} (h : ∀ n ∈ e.path, ('.' : Code) ∉ n) :
    dots (e.keyed []).1 ≤ e.path.length - 1 := by
  show dots (e.path.foldl Key.under []) ≤ _
  rcases hpath : e.path with _ | ⟨n, path⟩
  · exact Nat.zero_le _
  · rw [hpath] at h
    obtain ⟨hn, hmore⟩ := List.forall_mem_cons.1 h
    have hle := dots_path_le hmore n
    rw [dots_eq_zero hn, Nat.zero_add] at hle
    exact hle

/-- No name that leads to a text of the literal is in quotes and has a dot. This is less than that no
quotes of the text have a dot between them. -/
def HasNoQuotedDot (limits : Limits) (t : Text) : Prop :=
  ∀ e ∈ textsOf limits t, ∀ n ∈ e.path, Quotes t n → ('.' : Code) ∉ n

/-- What is emitted, accepted or rejected, has no more dots than objects around it. -/
theorem emitted_dots {limits : Limits} {t : Text} (h : HasNoQuotedDot limits t) :
    ∀ e ∈ emitted limits [] t, dots e.2.1 ≤ e.1 ∧ e.1 ≤ limits.maxDepth := by
  intro e he
  rw [emitted, emissions_tagged] at he
  obtain ⟨entry, hentry, rfl⟩ := List.mem_map.1 he
  have hdotless : ∀ n ∈ entry.path, ('.' : Code) ∉ n := fun n hn =>
    (textsOf_names limits t entry hentry n hn).elim (h entry hentry n hn) id
  have hwithin : entry.path.length ≤ limits.maxDepth + 1 := by
    unfold textsOf at hentry
    split at hentry
    · cases hentry
    · have hle := of_decide_eq_true (List.mem_filter.1 hentry).2
      omega
  have hdots := dots_keyed_le hdotless
  show dots (entry.keyed []).1 ≤ 0 + entry.path.length - 1 ∧ 0 + entry.path.length - 1 ≤ limits.maxDepth
  omega

theorem mem_emitted_of_key {limits : Limits} {t k : Text}
    (h : k ∈ (tabulate ((emitted limits [] t).map (·.2))).entries.keys ∨
      k ∈ (tabulate ((emitted limits [] t).map (·.2))).rejected.toList) :
    ∃ d v, (d, k, v) ∈ emitted limits [] t := by
  have hemitted : ∃ v, (k, v) ∈ (emitted limits [] t).map (·.2) :=
    h.elim (fun hk => (mem_keys_tabulate.1 hk).2) fun hk => (mem_rejected_tabulate.1 hk).2
  obtain ⟨v, hv⟩ := hemitted
  obtain ⟨⟨d, k', v'⟩, he, heq⟩ := List.mem_map.1 hv
  obtain ⟨rfl, rfl⟩ := Prod.mk.inj heq
  exact ⟨d, v', he⟩

/-- Whatever the text, if no name in quotes has a dot, a key has at most as many dots as objects may
be nested in the root. Those that have just so many stand in the deepest objects that are read; all
others have fewer. -/
theorem flatten_dots {limits : Limits} {t : Text} (h : HasNoQuotedDot limits t) :
    (∀ e ∈ emitted limits [] t, dots e.2.1 ≤ e.1 ∧ e.1 ≤ limits.maxDepth) ∧
      (limits.maxContentLength < t.length →
        (flatten limits [] t).run.value = .error (.literalTooLarge limits.maxContentLength t.length)) ∧
      (t.length ≤ limits.maxContentLength → ∃ f, (flatten limits [] t).run.value = .ok f ∧
        ∀ k, k ∈ f.entries.keys ∨ k ∈ f.rejected.toList →
          dots k < limits.maxDepth ∨
            dots k = limits.maxDepth ∧ ∃ v, (limits.maxDepth, k, v) ∈ emitted limits [] t) := by
  have hdots := emitted_dots h
  refine ⟨hdots, flatten_tooLarge [], fun hlen => ⟨_, flatten_emitted [] hlen, fun k hk => ?_⟩⟩
  obtain ⟨d, v, he⟩ := mem_emitted_of_key hk
  obtain ⟨hcount, hdepth⟩ := hdots _ he
  dsimp only at hcount hdepth
  by_cases hd : d = limits.maxDepth
  · subst hd
    rcases Nat.lt_or_eq_of_le hcount with hlt | heq
    · exact .inl hlt
    · exact .inr ⟨heq, v, he⟩
  · left
    omega

def Source.loose : Text :=
  "\x7ba: \x7b404: \x7bb.c: 'x.y'\x7d, ( d: \x7be: 'v', f: \x7bg: 'z'\x7d\x7d\x7d, 'h i': 'w'\x7d"

theorem flatten_dots_sample :
    let limits : Limits := { maxDepth := 2 }
    (HasNoQuotedDot limits Source.loose ∧ Source.loose.length ≤ limits.maxContentLength) ∧
      ∃ f, (flatten limits [] Source.loose).run.value = .ok f ∧
        f.entries.keys = (["a.c", "a.d.e"] : List Text) ∧ f.rejected.toList = (["h i"] : List Text) ∧
        ∀ k, k ∈ f.entries.keys ∨ k ∈ f.rejected.toList → dots k < 2 ∨
          dots k = 2 ∧ ∃ v, (2, k, v) ∈ emitted limits [] Source.loose := by
  intro limits
  -- one evaluation of the text is enough for all of it
  obtain ⟨hnames, hlen, hentries, hrejected⟩ :
      (∀ e ∈ textsOf limits Source.loose, ∀ n ∈ e.path, ('.' : Code) ∉ n) ∧
        Source.loose.length ≤ limits.maxContentLength ∧
        (tabulate ((emitted limits [] Source.loose).map (·.2))).entries.keys = (["a.c", "a.d.e"] : List Text) ∧
        (tabulate ((emitted limits [] Source.loose).map (·.2))).rejected.toList = (["h i"] : List Text) := by
    decide +kernel
  have hdots : HasNoQuotedDot limits Source.loose := fun e he n hn _ => hnames e he n hn
  obtain ⟨f, hf, hkeys⟩ := (flatten_dots hdots).2.2 hlen
  obtain rfl := Except.ok.inj (hf.symm.trans (flatten_emitted [] hlen))
  exact ⟨⟨hdots, hlen⟩, _, hf, hentries, hrejected, hkeys⟩

/-! ## As many dots as the cap -/

theorem starts_a : Key.startsSegment 'a' = true := rfl

theorem continues_nil : ([] : Text).all Key.continuesSegment = true := rfl

def Source.storey : Head := ⟨[], .bare 'a' [] starts_a continues_nil, [], []⟩

def Source.attic : Quoted := .ofText "x"

theorem attic_denoted : Source.attic.denoted = ("x" : Text) := denoted_ofText "x"

def Source.tower : Nat → Text
  | 0 => Source.storey.print ++ (Leaf.text Source.attic []).print
  | n + 1 => Source.storey.print ++ ('{' : Code) :: (tower n ++ [('}' : Code)])

theorem textsIn_nil (limits : Limits) : textsIn limits [] = [] := by
  rw [textsIn_eq, front, skipTrivia_nil]

theorem textsIn_text {limits : Limits} (head : Head) (hh : head.fits limits = true) {first : Quoted}
    {more : List Summand} (hf : (Leaf.text first more).fits limits = true) :
    textsIn limits (head.print ++ (Leaf.text first more).print) =
      [⟨[head.name.denoted], first.denoted ++ more.flatMap (·.string.denoted)⟩] := by
  obtain ⟨hb, hs⟩ := quote_solid first.isQuote
  have hprint : (Leaf.text first more).print =
      first.quote :: (first.body ++ [first.quote] ++ more.flatMap Summand.print) := rfl
  have hread := readValue_print hf (t := []) (.inl skipTrivia_nil)
  have hbrace : ¬ (first.quote == '{') = true := mt beq_iff_eq.1 (quote_ne first.isQuote (by decide))
  rw [List.append_nil, hprint] at hread
  rw [hprint, textsIn_eq, front_head limits head hh (skipTrivia_cons hb hs _)]
  simp only [propertyTexts, if_neg hbrace, if_pos first.isQuote, hread, skipValue_nil, textsIn_nil]
  rfl

theorem isInside_tower (n : Nat) : IsInside (Source.tower n) := by
  induction n with
  | zero =>
    intro depth hd after
    rw [Source.tower, List.append_assoc, closingBrace_head]
    exact closingBrace_leaf (.text Source.attic []) hd _
  | succ n ih => exact isInside_nested ih Source.storey

theorem attic_fits {limits : Limits} (h : 2 ≤ limits.maxValueLength) : (Leaf.text Source.attic []).fits limits = true := by
  have hlength : Source.attic.denoted.length ≤ limits.maxValueLength := by
    rw [attic_denoted]
    exact Nat.le_of_succ_le h
  have hbody : Source.attic.body.length < limits.maxValueLength := h
  simp [Leaf.fits, hbody, hlength]

/-- At the depth of the cap stands the one text of a tower as high as the cap. -/
theorem textsOf_tower (limits : Limits) (hkey : 1 ≤ limits.maxKeyLength) (hvalue : 2 ≤ limits.maxValueLength) :
    textsOf limits (('{' : Code) :: (Source.tower limits.maxDepth ++ [('}' : Code)])) =
      [⟨List.replicate (limits.maxDepth + 1) ("a" : Text), "x"⟩] := by
  obtain ⟨n, content, key, value⟩ := limits
  induction n with
  | zero =>
    have htext := textsIn_text Source.storey (decide_eq_true hkey) (attic_fits hvalue)
    rw [attic_denoted] at htext
    rw [textsOf_braced (isInside_tower 0), Source.tower, htext]
    rfl
  | succ n ih =>
    rw [Source.tower, textsOf_nested (isInside_tower n) Source.storey (decide_eq_true hkey) (Nat.le_add_left 1 n)]
    dsimp only at ih ⊢
    rw [Nat.add_sub_cancel, ih hkey hvalue]
    rfl

theorem dots_replicate {base : Text} (h : base ≠ []) (n : Nat) :
    dots ((List.replicate n ("a" : Text)).foldl Key.under base) = dots base + n := by
  induction n generalizing base with
  | zero => rfl
  | succ n ih =>
    have hbase : base ++ ('.' : Code) :: ("a" : Text) ≠ [] := by simp
    have hdots : dots (base ++ ('.' : Code) :: ("a" : Text)) = dots base + 1 := by
      unfold dots
      rw [List.count_append, List.count_cons_self]
      rfl
    rw [List.replicate_succ, List.foldl_cons, under_below h, ih hbase, hdots]
    omega

/-- The bound is met: for every cap, a literal without a dot anywhere has a key of just so many. -/
theorem flatten_dots_attained (limits : Limits) (hkey : 1 ≤ limits.maxKeyLength) (hvalue : 2 ≤ limits.maxValueLength)
    (hlen : (('{' : Code) :: (Source.tower limits.maxDepth ++ [('}' : Code)])).length ≤ limits.maxContentLength) :
    HasNoQuotedDot limits (('{' : Code) :: (Source.tower limits.maxDepth ++ [('}' : Code)])) ∧
      ∃ f, (flatten limits [] (('{' : Code) :: (Source.tower limits.maxDepth ++ [('}' : Code)]))).run.value = .ok f ∧
        ∃ k ∈ f.entries.keys, dots k = limits.maxDepth := by
  have htexts := textsOf_tower limits hkey hvalue
  have hname : ∀ n ∈ List.replicate (limits.maxDepth + 1) ("a" : Text), n = ("a" : Text) := fun n hn =>
    List.eq_of_mem_replicate hn
  constructor
  · intro e he n hn _
    rw [htexts] at he
    obtain rfl := List.mem_singleton.1 he
    rw [hname n hn]
    decide
  · refine ⟨_, flatten_texts [] hlen, (List.replicate (limits.maxDepth + 1) ("a" : Text)).foldl Key.under [], ?_, ?_⟩
    · refine mem_keys_tabulate.2 ⟨?_, "x", ?_⟩
      · rw [List.replicate_succ, List.foldl_cons]
        show Key.isValid ((List.replicate limits.maxDepth ("a" : Text)).foldl Key.under "a") = true
        rw [foldl_under (by decide)]
        refine isValid_path (List.cons_ne_nil _ _) fun n hn => ?_
        rw [hname n hn]
        decide
      · rw [htexts]
        exact List.mem_singleton.2 rfl
    · rw [List.replicate_succ, List.foldl_cons]
      show dots ((List.replicate limits.maxDepth ("a" : Text)).foldl Key.under "a") = limits.maxDepth
      rw [dots_replicate (by decide)]
      exact Nat.zero_add _

/-- An object in the root has a key of one dot where the cap is one, and an object ten levels below
the root one of ten where it is ten. -/
theorem flatten_dots_differs :
    (HasNoQuotedDot { maxDepth := 1 } "\x7ba: \x7bb: 'x'\x7d\x7d" ∧
      ∃ f, (flatten { maxDepth := 1 } [] "\x7ba: \x7bb: 'x'\x7d\x7d").run.value = .ok f ∧
        ∃ k ∈ f.entries.keys, ¬ dots k < 1) ∧
      (HasNoQuotedDot {} (('{' : Code) :: (Source.tower 10 ++ [('}' : Code)])) ∧
        ∃ f, (flatten {} [] (('{' : Code) :: (Source.tower 10 ++ [('}' : Code)]))).run.value = .ok f ∧
          ∃ k ∈ f.entries.keys, ¬ dots k < 10) := by
  constructor
  · have hnames : ∀ e ∈ textsOf { maxDepth := 1 } "\x7ba: \x7bb: 'x'\x7d\x7d", ∀ n ∈ e.path, ('.' : Code) ∉ n := by
      decide +kernel
    have hlen : ("\x7ba: \x7bb: 'x'\x7d\x7d" : Text).length ≤ ({ maxDepth := 1 } : Limits).maxContentLength := by
      decide +kernel
    refine ⟨fun e he n hn _ => hnames e he n hn, _, flatten_run [] hlen, "a.b", ?_, ?_⟩
    all_goals decide +kernel
  · obtain ⟨hnames, f, hf, k, hk, hdots⟩ :=
      flatten_dots_attained {} (by decide) (by decide) (by decide +kernel)
    refine ⟨hnames, f, hf, k, hk, ?_⟩
    rw [hdots]
    exact Nat.lt_irrefl 10

end MessageCatalog.Literal
