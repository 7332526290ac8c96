/-
  MessageCatalog.Proofs.Literal.Zeroed — values that contribute nothing.

  The properties of an object may have any expressions for values, and there may be members
  without a value among them: shorthands, spreads, methods. These have to be quiet, as no
  part of them is passed.

  Proved: of a literal any values that are neither texts nor objects may be replaced by a
  zero, and its table and the rejected keys stay what they are (`flatten_zeroed`). It takes
  that the scan can tell where such a value ends; where a value goes on behind a line break,
  a string or an object, or has a slash in front of a quote, it cannot
  (`flatten_zeroed_differs`).
-/

import MessageCatalog.Proofs.Literal.Flatten
import MessageCatalog.Proofs.Literal.Unread

namespace MessageCatalog.Literal

open Source

/-! ## Syntax -/

mutual

/-- What stands between the braces of an object, from some member on. -/
inductive Source.Properties where
  | done (gap : Gap)
  /-- A shorthand, a spread or a method. -/
  | bare (v : Tokens) (tail : Successors)
  | leaf (head : Head) (value : Leaf) (tail : Successors)
  | unread (head : Head) (v : Tokens) (tail : Successors)
  | object (head : Head) (inner : Properties) (tail : Successors)

/-- What follows a member. -/
inductive Source.Successors where
  | last (gap : Gap)
  | comma (gap : Gap) (rest : Properties)

end

mutual

def Source.Properties.print : Properties → Text
  | .done gap => gap.print
  | .bare v tail => v.print ++ tail.print
  | .leaf head value tail => head.print ++ (value.print ++ tail.print)
  | .unread head v tail => head.print ++ (v.print ++ tail.print)
  | .object head inner tail => head.print ++ ('{' : Code) :: (inner.print ++ ('}' : Code) :: tail.print)

def Source.Successors.print : Successors → Text
  | .last gap => gap.print
  | .comma gap rest => gap.print ++ (',' : Code) :: rest.print

end

def Source.Properties.source (before : Gap) (m : Properties) (after : Text) : Text :=
  before.print ++ ('{' : Code) :: (m.print ++ ('}' : Code) :: after)

/-- A member without a value: no property is read inside it. -/
def Source.Tokens.isBare (limits : Limits) (behind : Text) (v : Tokens) : Bool :=
  v.isSlashed behind && v.isQuiet false && decide (v.print.length ≤ limits.maxValueLength)

mutual

/-- Names and texts are within the limits, and what is neither a text nor an object is passed
within them. -/
def Source.Properties.fits (limits : Limits) : Properties → Bool
  | .done _ => true
  | .bare v tail => v.isBare limits tail.print && tail.fits limits
  | .leaf head value tail => head.fits limits && value.fits limits && tail.fits limits
  | .unread head v tail => head.fits limits && v.isUnread limits tail.print && tail.fits limits
  | .object head inner tail => head.fits limits && inner.fits limits && tail.fits limits

def Source.Successors.fits (limits : Limits) : Successors → Bool
  | .last _ => true
  | .comma _ rest => rest.fits limits

end

def Source.Tokens.zero : Tokens := .code [] '0' rfl .done

mutual

/-- The same properties, with some of the values that are neither texts nor objects replaced
by a zero. -/
inductive Source.Properties.Zeroed : Properties → Properties → Prop where
  | done (gap : Gap) : Properties.Zeroed (.done gap) (.done gap)
  | bare (v : Tokens) {tail tail' : Successors} : Successors.Zeroed tail tail' →
      Properties.Zeroed (.bare v tail) (.bare v tail')
  | leaf (head : Head) (value : Leaf) {tail tail' : Successors} : Successors.Zeroed tail tail' →
      Properties.Zeroed (.leaf head value tail) (.leaf head value tail')
  | same (head : Head) (v : Tokens) {tail tail' : Successors} : Successors.Zeroed tail tail' →
      Properties.Zeroed (.unread head v tail) (.unread head v tail')
  | zero (head : Head) (v : Tokens) {tail tail' : Successors} : Successors.Zeroed tail tail' →
      Properties.Zeroed (.unread head v tail) (.unread head .zero tail')
  | object (head : Head) {inner inner' : Properties} {tail tail' : Successors} : Properties.Zeroed inner inner' →
      Successors.Zeroed tail tail' → Properties.Zeroed (.object head inner tail) (.object head inner' tail')

inductive Source.Successors.Zeroed : Successors → Successors → Prop where
  | last (gap : Gap) : Successors.Zeroed (.last gap) (.last gap)
  | comma (gap : Gap) {rest rest' : Properties} : Properties.Zeroed rest rest' →
      Successors.Zeroed (.comma gap rest) (.comma gap rest')

end

mutual

theorem zeroed_refl (m : Properties) : m.Zeroed m := by
  match m with
  | .done gap => exact .done gap
  | .bare v tail => exact .bare v (successors_refl tail)
  | .leaf head value tail => exact .leaf head value (successors_refl tail)
  | .unread head v tail => exact .same head v (successors_refl tail)
  | .object head inner tail => exact .object head (zeroed_refl inner) (successors_refl tail)

theorem successors_refl (l : Successors) : l.Zeroed l := by
  match l with
  | .last gap => exact .last gap
  | .comma gap rest => exact .comma gap (zeroed_refl rest)

end

/-! ## What stands behind a value -/

/-- Texts in front of which the same code points open a comment. -/
def SameOpening (t u : Text) : Prop := ∀ c, opensComment c t = opensComment c u

theorem SameOpening.cons (d : Code) (t u : Text) : SameOpening (d :: t) (d :: u) := fun _ => rfl

theorem SameOpening.append {t u : Text} (h : SameOpening t u) (p : Text) : SameOpening (p ++ t) (p ++ u) := by
  cases p with
  | nil => exact h
  | cons d p => exact .cons d _ _

/-- A brace behind a value makes no comment of its last slash. -/
theorem SameOpening.brace (t u : Text) : SameOpening t (t ++ ('}' : Code) :: u) := by
  cases t with
  | nil => exact fun _ => rfl
  | cons d t => exact .cons d _ _

theorem sameOpening_zeroed {l l' : Successors} (h : l.Zeroed l') : SameOpening l.print l'.print := by
  cases h with
  | last gap => exact fun _ => rfl
  | comma gap hr => exact SameOpening.append (.cons ',' _ _) gap.print

theorem isSlashed_congr {t u : Text} (h : SameOpening t u) (p : Tokens) : p.isSlashed t = p.isSlashed u := by
  induction p generalizing t u with
  | done => rfl
  | code gap c hc rest ih => rw [Tokens.isSlashed, Tokens.isSlashed, h.append rest.print c, ih h]
  | string gap s rest ih | template gap body hb rest ih => exact ih h
  | group gap b inside close rest ih₁ ih₂ =>
    rw [Tokens.isSlashed, Tokens.isSlashed, ih₁ (SameOpening.append (.cons b.closing _ _) close.print), ih₂ h]

theorem successors_ends (l : Successors) : Ends l.print := by
  cases l with
  | last gap => exact .inl (skipTrivia_gap_nil gap)
  | comma gap rest =>
    rw [Successors.print, Ends, skipTrivia_gap, skipTrivia_cons (by decide) (by decide)]
    exact .inr ⟨rest.print, rfl⟩

/-! ## The closing brace -/

variable {limits : Limits}

theorem closingBrace_value {v : Tokens} {l l' : Successors} (h : l.Zeroed l') (hv : v.isSlashed l.print = true)
    {depth : Int} (hd : 1 ≤ depth) (t : Text) :
    closingBrace depth (v.print ++ (l'.print ++ ('}' : Code) :: t)) =
      closingBrace depth (l'.print ++ ('}' : Code) :: t) := by
  rw [isSlashed_congr (sameOpening_zeroed h), isSlashed_congr (.brace l'.print t)] at hv
  exact closingBrace_tokens v hd hv

mutual

theorem closingBrace_zeroed {m m' : Properties} (h : m.Zeroed m') (hm : m.fits limits = true) {depth : Int}
    (hd : 1 ≤ depth) (t : Text) :
    closingBrace depth (m'.print ++ ('}' : Code) :: t) = closingBrace depth (('}' : Code) :: t) := by
  match h with
  | .done gap => exact closingBrace_gap gap depth _
  | .bare v hl =>
    simp only [Properties.fits, Tokens.isBare, Bool.and_eq_true] at hm
    obtain ⟨⟨⟨hv, -⟩, -⟩, hlm⟩ := hm
    rw [Properties.print, List.append_assoc, closingBrace_value hl hv hd, closingBrace_successors hl hlm hd]
  | .leaf head value hl =>
    simp only [Properties.fits, Bool.and_eq_true] at hm
    rw [Properties.print, List.append_assoc, closingBrace_head, List.append_assoc, closingBrace_leaf value hd,
      closingBrace_successors hl hm.2 hd]
  | .same head v hl =>
    simp only [Properties.fits, Tokens.isUnread, Bool.and_eq_true] at hm
    obtain ⟨⟨-, hv, -⟩, hlm⟩ := hm
    rw [Properties.print, List.append_assoc, closingBrace_head, List.append_assoc, closingBrace_value hl hv hd,
      closingBrace_successors hl hlm hd]
  | .zero head v hl =>
    simp only [Properties.fits, Bool.and_eq_true] at hm
    rw [Properties.print, List.append_assoc, closingBrace_head, List.append_assoc,
      closingBrace_value hl (by rfl) hd, closingBrace_successors hl hm.2 hd]
  | .object head hi hl =>
    simp only [Properties.fits, Bool.and_eq_true] at hm
    obtain ⟨⟨-, him⟩, hlm⟩ := hm
    rw [Properties.print, List.append_assoc, closingBrace_head, List.cons_append, closingBrace_open,
      List.append_assoc, List.cons_append, closingBrace_zeroed hi him (by omega), closingBrace_close,
      if_neg (by omega), Int.add_sub_cancel, closingBrace_successors hl hlm hd]

theorem closingBrace_successors {l l' : Successors} (h : l.Zeroed l') (hl : l.fits limits = true) {depth : Int}
    (hd : 1 ≤ depth) (t : Text) :
    closingBrace depth (l'.print ++ ('}' : Code) :: t) = closingBrace depth (('}' : Code) :: t) := by
  match h with
  | .last gap => exact closingBrace_gap gap depth _
  | .comma gap hr =>
    rw [Successors.print, List.append_assoc, closingBrace_gap, List.cons_append,
      closingBrace_cons (by decide) (by decide) (by decide) (by decide), closingBrace_zeroed hr hl hd]

end

theorem closingBrace_inner {m m' : Properties} (h : m.Zeroed m') (hm : m.fits limits = true) (t : Text) :
    closingBrace 1 (m'.print ++ ('}' : Code) :: t) = some (('}' : Code) :: t) := by
  rw [closingBrace_zeroed h hm (Int.le_refl 1), closingBrace_close, if_pos rfl]

/-! ## The scan -/

section

variable {base : Text} {depth : Nat}

theorem scan_bare {v : Tokens} {t : Text} (hv : v.isBare limits t = true) (ht : Ends t) :
    scan limits base depth (v.print ++ t) = scan limits base depth t := by
  simp only [Tokens.isBare, Bool.and_eq_true, decide_eq_true_eq] at hv
  obtain ⟨⟨hs, hq⟩, hlength⟩ := hv
  exact (calm_tokens v hq hs (sealed_end ht) (by rw [List.length_append]; omega)).1.scan

theorem scan_zero {head : Head} (hh : head.fits limits = true) {t : Text} (ht : Ends t) :
    scan limits base depth (head.print ++ (Tokens.zero.print ++ t)) = scan limits base depth t := by
  have hzero : Tokens.zero.print ++ t = ('0' : Code) :: t := rfl
  rw [hzero, scan_other base depth hh (skipTrivia_cons (by decide) (by decide) t) (by decide) (by decide)]
  cases limits.maxValueLength with
  | zero => rw [skipValue_zero, scan_solid (by decide) (by decide) (by decide)]
  | succ n =>
    rw [skipValue_inert (by decide) (by decide) (by decide) (by simp) (fun _ => by decide), scan_past_end ht]

end

mutual

/-- With any of its values zeroed the scan of an object emits the same. -/
theorem scan_zeroed {m m' : Properties} (h : m.Zeroed m') (hm : m.fits limits = true) (base : Text) (depth : Nat) :
    scan limits base depth m'.print = scan limits base depth m.print := by
  match h with
  | .done gap => rfl
  | @Properties.Zeroed.bare v l l' hl =>
    simp only [Properties.fits, Bool.and_eq_true] at hm
    have hv' : v.isBare limits l'.print = true := by
      rw [Tokens.isBare, ← isSlashed_congr (sameOpening_zeroed hl)]
      exact hm.1
    rw [Properties.print, Properties.print, scan_bare hv' (successors_ends l'), scan_bare hm.1 (successors_ends l),
      scan_successors hl hm.2]
  | @Properties.Zeroed.leaf head value l l' hl =>
    simp only [Properties.fits, Bool.and_eq_true] at hm
    obtain ⟨⟨hh, hv⟩, hlm⟩ := hm
    rw [Properties.print, Properties.print, scan_leaf base depth hh hv (successors_ends l'),
      scan_leaf base depth hh hv (successors_ends l), scan_successors hl hlm]
  | @Properties.Zeroed.same head v l l' hl =>
    simp only [Properties.fits, Bool.and_eq_true] at hm
    obtain ⟨⟨hh, hv⟩, hlm⟩ := hm
    have hv' : v.isUnread limits l'.print = true := by
      rw [Tokens.isUnread, ← isSlashed_congr (sameOpening_zeroed hl)]
      exact hv
    rw [Properties.print, Properties.print, scan_unread hh hv' (successors_ends l'),
      scan_unread hh hv (successors_ends l), scan_successors hl hlm]
  | @Properties.Zeroed.zero head v l l' hl =>
    simp only [Properties.fits, Bool.and_eq_true] at hm
    obtain ⟨⟨hh, hv⟩, hlm⟩ := hm
    rw [Properties.print, Properties.print, scan_zero hh (successors_ends l'),
      scan_unread hh hv (successors_ends l), scan_successors hl hlm]
  | @Properties.Zeroed.object head i _ l l' hi hl =>
    simp only [Properties.fits, Bool.and_eq_true] at hm
    obtain ⟨⟨hh, him⟩, hlm⟩ := hm
    rw [Properties.print, Properties.print, scan_braced base depth hh (closingBrace_inner hi him _),
      scan_braced base depth hh (closingBrace_inner (zeroed_refl i) him _), scan_zeroed hi him,
      scan_successors hl hlm]

theorem scan_successors {l l' : Successors} (h : l.Zeroed l') (hl : l.fits limits = true) (base : Text)
    (depth : Nat) : scan limits base depth l'.print = scan limits base depth l.print := by
  match h with
  | .last gap => rfl
  | .comma gap hr => rw [Successors.print, Successors.print, scan_separator, scan_separator, scan_zeroed hr hl]

end

/-! ## Literals -/

theorem unread_length_pos {v : Tokens} {behind : Text} (hv : v.isUnread limits behind = true) :
    0 < v.print.length := by
  cases v with
  | done => simp [Tokens.isUnread, Tokens.passedFrom?] at hv
  | code | string | template | group =>
    simp only [Tokens.print, Quoted.print, List.length_append, List.length_cons]
    omega

mutual

theorem length_zeroed_le {m m' : Properties} (h : m.Zeroed m') (hm : m.fits limits = true) :
    m'.print.length ≤ m.print.length := by
  match h with
  | .done gap => exact Nat.le_refl _
  | .bare v hl =>
    simp only [Properties.fits, Bool.and_eq_true] at hm
    have := length_successors_le hl hm.2
    simp only [Properties.print, List.length_append]
    omega
  | .leaf head value hl | .same head value hl =>
    simp only [Properties.fits, Bool.and_eq_true] at hm
    have := length_successors_le hl hm.2
    simp only [Properties.print, List.length_append]
    omega
  | .zero head v hl =>
    simp only [Properties.fits, Bool.and_eq_true] at hm
    have := length_successors_le hl hm.2
    have := unread_length_pos hm.1.2
    have hzero : Tokens.zero.print.length = 1 := rfl
    simp only [Properties.print, List.length_append, hzero]
    omega
  | .object head hi hl =>
    simp only [Properties.fits, Bool.and_eq_true] at hm
    have := length_zeroed_le hi hm.1.2
    have := length_successors_le hl hm.2
    simp only [Properties.print, List.length_append, List.length_cons]
    omega

theorem length_successors_le {l l' : Successors} (h : l.Zeroed l') (hl : l.fits limits = true) :
    l'.print.length ≤ l.print.length := by
  match h with
  | .last gap => exact Nat.le_refl _
  | .comma gap hr =>
    have := length_zeroed_le hr hl
    simp only [Successors.print, List.length_append, List.length_cons]
    omega

end

/-- Values that are neither texts nor objects contribute nothing: with any of them replaced by
a zero, a literal has the same table and the same rejected keys. -/
theorem flatten_zeroed (limits : Limits) (base : Text) (before : Gap) {m m' : Properties} (after : Text)
    (h : m.Zeroed m') (hm : m.fits limits = true) (hlen : (m.source before after).length ≤ limits.maxContentLength) :
    ∃ f, (flatten limits base (m.source before after)).run.value = .ok f ∧
      (flatten limits base (m'.source before after)).run.value = .ok f := by
  have hle := length_zeroed_le h hm
  have hlen' : (m'.source before after).length ≤ limits.maxContentLength := by
    simp only [Properties.source, List.length_append, List.length_cons] at hlen ⊢
    omega
  have hsame : emissions limits base (m'.source before after) = emissions limits base (m.source before after) := by
    rw [Properties.source, Properties.source, emissions_braced (closingBrace_inner h hm after),
      emissions_braced (closingBrace_inner (zeroed_refl m) hm after), scan_zeroed h hm]
  refine ⟨_, flatten_run base hlen, ?_⟩
  rw [flatten_run base hlen', hsame]

def Source.filled (a b c d : Tokens) : Properties :=
  .unread ⟨[], .bare 'h' "ook" rfl rfl, [], []⟩ a (.comma []
    (.unread ⟨[], .bare 's' "um" rfl rfl, [], []⟩ b (.comma []
      (.unread ⟨[], .bare 'n' "ote" rfl rfl, [], []⟩ c (.comma []
        (.unread ⟨[], .bare 'w' "hen" rfl rfl, [], []⟩ d (.comma []
          (.leaf ⟨[], .bare 't' "ext" rfl rfl, [], []⟩ (.text (.single "u" (by decide +kernel)) [])
            (.last [])))))))))

def Source.filling : Properties :=
  filled
    (.code [] 'f' rfl (.group [] .round (.string [] (.single "o" (by decide +kernel)) (.code [] ',' rfl
      (.group [.newline] .curly (.code [] 'g' rfl (.code [] ':' rfl
        (.string [] (.single "r" (by decide +kernel)) .done))) [] .done))) [] .done))
    (.string [] (.single "s" (by decide +kernel)) (.code [] '+' rfl (.code [] 'q' rfl (.code [] '/' rfl
      (.code [.space] '2' rfl .done)))))
    (.template [] "t: '$\x7bu\x7d'" (by decide +kernel) .done)
    (.code [] 'h' rfl (.code [.newline] '?' rfl (.code [] 'i' rfl (.code [] ':' rfl (.code [] '1' rfl .done)))))

theorem flatten_zeroed_sample :
    let t : Text := "\x7bhook:f('o',\n\x7bg:'r'\x7d),sum:'s'+q/ 2,note:`t: '$\x7bu\x7d'`,when:h\n?i:1,text:'u'\x7d"
    let zeroed : Text := "\x7bhook:0,sum:0,note:0,when:0,text:'u'\x7d"
    ∃ f, (flatten {} "z" t).run.value = .ok f ∧ (flatten {} "z" zeroed).run.value = .ok f := by
  intro t zeroed
  have hsource : filling.source [] [] = t := by decide +kernel
  have hzeroed : (filled .zero .zero .zero .zero).source [] [] = zeroed := by decide +kernel
  rw [← hsource, ← hzeroed]
  exact flatten_zeroed {} "z" [] []
    (.zero _ _ (.comma _ (.zero _ _ (.comma _ (.zero _ _ (.comma _ (.zero _ _ (.comma _ (zeroed_refl _)))))))))
    (by decide +kernel) (by decide +kernel)

def holding (value : Text) : Text := ("\x7ba: " : Text) ++ value ++ (", e: 'y'\x7d" : Text)

/-- Of a value that goes on behind a line break, a string or an object, part may be read as a
property; one with a quote or a slash behind a slash, or with a template in a template, may
hide what follows it. -/
theorem flatten_zeroed_differs :
    keysOf (holding "0") = some ([("e" : Text)], []) ∧
      keysOf (holding "b\n? 'x' : 'y'") = some ([("x" : Text), ("e" : Text)], []) ∧
      keysOf (holding "b\n.c(\x7bd: 'x'\x7d)") = some ([("d" : Text), ("e" : Text)], []) ∧
      keysOf (holding "b\n+ `it's`") = some ([], []) ∧
      keysOf (holding "'x'.length") = some ([("a" : Text), ("e" : Text)], []) ∧
      keysOf (holding "\x7bb: 'x'\x7d.b") = some ([("a.b" : Text), ("e" : Text)], []) ∧
      keysOf (holding "/'/") = some ([], []) ∧
      keysOf (holding "/\\//") = some ([], []) ∧
      keysOf (holding "`$\x7b`\x7d`\x7d`") = some ([], []) := by
  refine ⟨?_, ?_, ?_, ?_, ?_, ?_, ?_, ?_, ?_⟩
  all_goals decide +kernel

end MessageCatalog.Literal
