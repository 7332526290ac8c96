/-
  MessageCatalog.Proofs.Extraction.InlineCalls — an inline call, read off its tree and off
  its line.

  The line scan of an inline call that has a line to itself adds what the rule adds, and
  besides it what overruns the key: object literals behind anchors and strings of
  attributes that start inside the key and reach past it. So the two come to the same for
  a call with one argument, and for a call with two whose key is closed
  (`inlineCall_scanned`). Where something does overrun the key, what stands between the
  arguments is taken for a text or a key; and an empty string the line scan never reads
  (`inlineCall_scanned_differs`).
-/

import Mathlib.Data.List.Forall2
import MessageCatalog.Proofs.Extraction.Nodes
import MessageCatalog.Proofs.Extraction.Regions
import MessageCatalog.Proofs.Literal.Names

namespace MessageCatalog.Extraction

open Anchor
open Literal (isQuote Unquoted)
open Literal.Source (Quoted)

theorem lines_single {t : Text} (ht : ∀ c ∈ t, Text.isLineEnd c = false) (hne : t ≠ []) : Text.lines t = [t] := by
  have hgo : ∀ {t : Text} (acc : Text), (∀ c ∈ t, Text.isLineEnd c = false) → acc.reverse ++ t ≠ [] →
      Text.lines.go acc t = [acc.reverse ++ t] := by
    intro t
    induction t with
    | nil =>
      intro acc _ hne
      rw [List.append_nil] at hne ⊢
      rw [Text.lines.go, if_neg (by simpa using hne)]
    | cons c t ih =>
      intro acc ht _
      have hc := ht c List.mem_cons_self
      have hreturn : (c == '\r') = false := by
        refine beq_eq_false_iff_ne.2 ?_
        rintro rfl
        cases hc
      rw [Text.lines.go.eq_def]
      simp only [hreturn, hc, Bool.false_eq_true, if_false]
      rw [ih (c :: acc) (fun c hc => ht c (List.mem_cons_of_mem _ hc)) (by simp), List.reverse_cons, List.append_assoc]
      rfl
  exact hgo [] ht hne

/-! ## How a call is written -/

/-- The functions of inline calls. -/
inductive Translate where
  | direct
  | member
  | hook

def Translate.print : Translate → Text
  | .direct => "t"
  | .member => "i18n.t"
  | .hook => "useTranslation().t"

/-- No quote, backslash, dollar sign or line end. -/
def isSimple (c : Code) : Bool := !isQuote c && c != '\\' && c != '$' && !Text.isLineEnd c

theorem isSimple_plain {c q : Code} (h : isSimple c = true) (hq : isQuote q = true) :
    c ≠ q ∧ c ≠ '\n' ∧ c ≠ '\\' ∧ c ≠ '$' := by
  refine ⟨?_, ?_, ?_, ?_⟩
  · rintro rfl
    rw [isSimple, hq] at h
    cases h
  all_goals
    rintro rfl
    cases h

theorem isPlain_simple {q : Code} (hq : isQuote q = true) {t : Text} (h : t.all isSimple = true) :
    Literal.Source.isPlain q t = true := by
  induction t with
  | nil => rfl
  | cons c t ih =>
    rw [List.all_cons, Bool.and_eq_true] at h
    obtain ⟨hquote, hfeed, hslash, hdollar⟩ := isSimple_plain h.1 hq
    rw [Literal.isPlain_cons hslash hquote hfeed (fun _ => hdollar), ih h.2]

/-- An argument that is a string. -/
structure Argument where
  quote : Code
  text : Text
  isQuote : Literal.isQuote quote = true
  isSimple : text.all isSimple = true

namespace Argument

def string (a : Argument) : Quoted := ⟨a.quote, a.text, a.isQuote, isPlain_simple a.isQuote a.isSimple⟩

/-- Not empty, and no longer than `most`. -/
def fits (most : Nat) (a : Argument) : Prop := a.text ≠ [] ∧ a.text.length ≤ most

variable {a : Argument} {c : Code}

theorem simple (hc : c ∈ a.text) : Extraction.isSimple c = true := List.all_eq_true.1 a.isSimple c hc

theorem unquoted (a : Argument) : Unquoted a.text := fun c hc => by
  have h := simple hc
  simp only [Extraction.isSimple, Bool.and_eq_true, Bool.not_eq_true'] at h
  exact h.1.1.1

theorem denoted_string (a : Argument) : a.string.denoted = a.text := by
  refine Literal.decode_plain fun hc => ?_
  have h := simple hc
  cases h

theorem noLineEnd (hc : c ∈ a.text) : Text.isLineEnd c = false := by
  have h := simple hc
  simp only [Extraction.isSimple, Bool.and_eq_true, Bool.not_eq_true'] at h
  exact h.2

end Argument

/-- A call with a key and, if it has one, a value. -/
structure Inline where
  function : Translate
  key : Argument
  value : Option Argument

namespace Inline

def strings (i : Inline) : List Quoted := i.key.string :: (i.value.map Argument.string).toList

/-- The text for the key: the value, else the key itself. -/
def text (i : Inline) : Text := (i.value.map Argument.text).getD i.key.text

def source (i : Inline) : Text :=
  i.function.print ++ ('(' : Code) ::
    (i.key.string.print ++ (i.value.elim [] (fun v => (", " : Text) ++ v.string.print) ++ [(')' : Code)]))

def line (i : Inline) : Text := i.source ++ ";"

def ending (i : Inline) : Text :=
  match i.value with
  | none => ");"
  | some v => (", " : Text) ++ v.quote :: (v.text ++ v.quote :: ");")

def behind (i : Inline) : Nat := i.ending.length + 1

/-- Whether a piece of the line starts in front of the key's closing quote and ends behind
it. `left` is what is left of the line where it starts, `after` where it ends. -/
def overruns (i : Inline) (left after : Nat) : Bool := i.behind < left && after < i.behind

structure KeyClosed (i : Inline) (limits : Limits) : Prop where
  calls : ∀ r ∈ LineScan.callRegions limits i.line, i.overruns r.left r.leftAfter = false
  exports : ∀ r ∈ LineScan.exportRegions limits i.line, i.overruns r.left r.leftAfter = false
  attributes : ∀ f ∈ findAll elementKey none i.line, i.overruns f.start.length f.rest.length = false

def addOverrunning (i : Inline) (c : Collection) : Collection :=
  let calls := (LineScan.callRegions c.limits i.line).filter fun r => i.overruns r.left r.leftAfter
  let exports := (LineScan.exportRegions c.limits i.line).filter fun r => i.overruns r.left r.leftAfter
  exports.foldl (fun c r => (c.addLiteral r.literal).value) (calls.foldl (fun c r => (LineScan.addCall c r).value) c)

/-- The strings of attributes that overrun the key. -/
def overrunning (i : Inline) : List Text :=
  ((findAll elementKey none i.line).filter fun f => i.overruns f.start.length f.rest.length).map (·.value)

def front (i : Inline) : Text := i.function.print ++ [('(' : Code)]

theorem line_eq (i : Inline) :
    i.line = i.front ++ i.key.quote :: (i.key.text ++ i.key.quote :: i.ending) := by
  obtain ⟨f, k, v⟩ := i
  cases v <;> simp [line, source, front, ending, Quoted.print, Argument.string, Text.ofString]

theorem front_plain (i : Inline) : ('{' : Code) ∉ i.front ∧ ('K' : Code) ∉ i.front ∧ Unquoted i.front := by
  have hall : ∀ f : Translate, ('{' : Code) ∉ f.print ++ [('(' : Code)] ∧
      ('K' : Code) ∉ f.print ++ [('(' : Code)] ∧ ∀ c ∈ f.print ++ [('(' : Code)], isQuote c = false := by
    intro f
    cases f <;> decide
  exact hall i.function

/-! ## Literals and attributes on its line -/

section

variable {i : Inline}

/-- Literals stay clear of the quotes, but for those that overrun the key of a call with a
value. -/
theorem literal_unquoted {α : Type} {limits : Limits} {r : LineScan.Region α} (hr : r.Within limits i.line) :
    Unquoted r.literal ∨ i.value.isSome = true ∧ i.overruns r.left r.leftAfter = true := by
  rw [line_eq] at hr
  obtain hr | ⟨hopen, -⟩ := hr.split i.key.isQuote
  · obtain hr | ⟨-, hsub | ⟨hclose, hafter, hleft⟩⟩ := hr.split i.key.isQuote
    · -- behind the key
      cases hv : i.value with
      | none =>
        have hopen := hr.opening
        simp only [ending, hv] at hopen
        exact absurd hopen (by decide)
      | some v =>
        simp only [ending, hv] at hr
        obtain hr | ⟨hopen, -⟩ := hr.split v.isQuote
        · obtain hr | ⟨-, hsub | ⟨hclose, -⟩⟩ := hr.split v.isQuote
          · exact absurd hr.opening (by decide)
          · exact .inl (v.unquoted.sublist hsub)
          · exact absurd hclose (by decide)
        · exact absurd hopen (by decide)
    · exact .inl (i.key.unquoted.sublist hsub)
    · -- from the key on past its end
      cases hv : i.value with
      | none =>
        simp only [ending, hv] at hclose
        exact absurd hclose (by decide)
      | some v =>
        refine .inr ⟨rfl, ?_⟩
        rw [overruns, Bool.and_eq_true]
        exact ⟨decide_eq_true hleft, decide_eq_true hafter⟩
  · exact absurd hopen i.front_plain.1

/-- An attribute is read only where it overruns the key of a call with a value. -/
theorem elementKey_overruns {f : Found Text} (hf : f ∈ findAll elementKey none i.line) :
    i.value.isSome = true ∧ i.overruns f.start.length f.rest.length = true := by
  obtain ⟨hstart, b, hfound⟩ := mem_findAll elementKey_suffix hf
  have hlast : ∀ c ∈ (");" : Text), isQuote c = false := by decide
  have hbehind : ¬ f.start <:+ ");" := fun hs => by
    rw [elementKey_unquoted b (Unquoted.suffix hlast hs)] at hfound
    cases hfound
  have hquote : ∀ {a : Argument}, ¬ (");" : Text) = f.value ++ a.quote :: f.rest := fun {a} e => by
    have hmem : a.quote ∈ (");" : Text) := by simp [e]
    have hq := a.isQuote
    rw [hlast _ hmem] at hq
    cases hq
  rw [line_eq] at hstart
  obtain hstart | ⟨hK, -⟩ := elementKey_start i.front_plain.2.2 i.key.isQuote hstart hfound
  · obtain hstart | ⟨-, hending, hleft⟩ := elementKey_start i.key.unquoted i.key.isQuote hstart hfound
    · -- behind the key
      cases hv : i.value with
      | none =>
        simp only [ending, hv] at hstart
        exact absurd hstart hbehind
      | some v =>
        simp only [ending, hv] at hstart
        have hcomma : ∀ c ∈ (", " : Text), isQuote c = false := by decide
        obtain hstart | ⟨hK, -⟩ := elementKey_start hcomma v.isQuote hstart hfound
        · obtain hstart | ⟨-, hrest, -⟩ := elementKey_start v.unquoted v.isQuote hstart hfound
          · exact absurd hstart hbehind
          · exact absurd hrest hquote
        · exact absurd hK (by decide)
    · -- from the key on past its end
      cases hv : i.value with
      | none =>
        simp only [ending, hv] at hending
        exact absurd hending hquote
      | some v =>
        have hafter : f.rest.length < i.behind := by
          rw [behind, hending, List.length_append, List.length_cons]
          omega
        refine ⟨rfl, ?_⟩
        rw [overruns, Bool.and_eq_true]
        exact ⟨decide_eq_true hleft, decide_eq_true hafter⟩
  · exact absurd hK i.front_plain.2.1

theorem overrunning_eq (i : Inline) : (findAll elementKey none i.line).map (·.value) = i.overrunning := by
  rw [overrunning, List.filter_eq_self.2 fun f hf => (elementKey_overruns hf).2]

/-! ## What is read on its line -/

theorem inlineCallee_front (i : Inline) (t : Text) : inlineCallee none (i.front ++ t) = some (('(' : Code) :: t) := by
  have hall : ∀ f : Translate, inlineCallee none (f.print ++ ('(' : Code) :: t) = some (('(' : Code) :: t) := by
    intro f
    cases f <;> rfl
  rw [front, List.append_assoc]
  exact hall i.function

theorem quoted_argument {a : Argument} {most : Nat} (h : a.fits most) (t : Text) :
    quoted most (a.quote :: (a.text ++ a.quote :: t)) = some (a.text, t) := by
  have hquote : (a.quote == '\'' || a.quote == '"' || a.quote == '`') = true := a.isQuote
  have hbody : run (fun c => c != a.quote && c != '\n' && c != '\\' && !(a.quote == '`' && c == '$')) most
      (a.text ++ a.quote :: t) = a.text := by
    refine run_append (List.all_eq_true.2 fun c hc => ?_) h.2 (by simp) t
    obtain ⟨hquote, hfeed, hslash, hdollar⟩ := isSimple_plain (Argument.simple hc) a.isQuote
    simp only [bne_iff_ne.2 hquote, bne_iff_ne.2 hfeed, bne_iff_ne.2 hslash, beq_eq_false_iff_ne.2 hdollar,
      Bool.and_true, Bool.and_false, Bool.not_false]
  have hnonempty : a.text.isEmpty = false := List.isEmpty_eq_false_iff.2 h.1
  have hclose : Text.dropStart? [a.quote] (a.quote :: t) = some t := by
    simp [Text.dropStart?]
  simp only [quoted, hquote, if_true, hbody, hnonempty, Bool.false_eq_true, if_false, List.drop_left, hclose,
    Option.map_some]

theorem inlineCall_line (hkey : i.key.fits maxKeyChars) (hvalue : ∀ v ∈ i.value, v.fits maxValueChars) :
    Anchor.inlineCall none i.line = some ((i.key.text, i.value.map Argument.text), (");" : Text)) := by
  have hopen : spaced '(' (('(' : Code) :: i.key.quote :: (i.key.text ++ i.key.quote :: i.ending)) =
      some (i.key.quote :: (i.key.text ++ i.key.quote :: i.ending)) :=
    spaced_solid rfl (Literal.isSpace_quote i.key.isQuote) _
  have hfront : inlineCallee none i.line =
      some (('(' : Code) :: i.key.quote :: (i.key.text ++ i.key.quote :: i.ending)) := by
    rw [line_eq, inlineCallee_front]
  simp only [Anchor.inlineCall, hfront, Option.bind_eq_bind, Option.bind_some, hopen, quoted_argument hkey]
  cases hv : i.value with
  | none =>
    simp only [ending, hv]
    rfl
  | some v =>
    have hcomma : spaced ',' ((", " : Text) ++ v.quote :: (v.text ++ v.quote :: ");")) =
        some (v.quote :: (v.text ++ v.quote :: ");")) :=
      spaced_one rfl (Literal.isSpace_quote v.isQuote) _
    simp only [ending, hv, hcomma, Option.bind_some, quoted_argument (hvalue v hv)]
    rfl

/-- Behind the call there is no other. -/
theorem inlineCall_ending (before : Option Code) {s : Text} (hs : s <:+ (");" : Text)) :
    Anchor.inlineCall before s = none := by
  have hall : ∀ n ≤ 2, Text.dropStart? "t" ((");" : Text).drop n) = none ∧
      Text.dropStart? "i18n" ((");" : Text).drop n) = none ∧
      Text.dropStart? "useTranslation" ((");" : Text).drop n) = none := by decide
  obtain ⟨hdirect, hmember, hhook⟩ := hall (2 - s.length) (Nat.sub_le 2 _)
  rw [show (");" : Text).drop (2 - s.length) = s from (List.suffix_iff_eq_drop.1 hs).symm] at hdirect hmember hhook
  have hcallee : inlineCallee before s = none := by
    simp only [inlineCallee, hdirect, word_none hmember, word_none hhook, Option.bind_none, ite_self]
    rfl
  simp only [Anchor.inlineCall, hcallee, Option.bind_eq_bind, Option.bind_none]

theorem findAll_inlineCall (hkey : i.key.fits maxKeyChars) (hvalue : ∀ v ∈ i.value, v.fits maxValueChars) :
    findAll Anchor.inlineCall none i.line = [⟨(i.key.text, i.value.map Argument.text), i.line, (");" : Text)⟩] := by
  have hlength : (");" : Text).length < i.line.length := by
    have hending : (");" : Text).length ≤ i.ending.length := by
      rw [ending]
      split
      · exact Nat.le_refl _
      · simp only [List.length_append, List.length_cons]
        omega
    rw [line_eq]
    simp only [List.length_append, List.length_cons]
    omega
  obtain ⟨before, hfound⟩ := findAll_now (inlineCall_line hkey hvalue) hlength
  rw [hfound, findAll_none fun b s hs => inlineCall_ending b hs]

theorem lines_line (i : Inline) : Text.lines i.line = [i.line] := by
  have hquote : ∀ {q : Code}, isQuote q = true → Text.isLineEnd q = false := fun {q} hq => by
    simp only [isQuote, Literal.isNameQuote, Bool.or_eq_true, beq_iff_eq] at hq
    rcases hq with (rfl | rfl) | rfl <;> rfl
  have hfront : ∀ f : Translate, ∀ c ∈ f.print ++ [('(' : Code)], Text.isLineEnd c = false := by
    intro f
    cases f <;> decide
  have hlast : ∀ c ∈ (");" : Text), Text.isLineEnd c = false := by decide
  have hending : ∀ c ∈ i.ending, Text.isLineEnd c = false := by
    rw [ending]
    split
    · exact hlast
    · rename_i v _
      simp only [List.forall_mem_append, List.forall_mem_cons]
      exact ⟨by decide, hquote v.isQuote, fun _ => Argument.noLineEnd, hquote v.isQuote, hlast⟩
  rw [line_eq]
  refine lines_single ?_ (by simp)
  simp only [List.forall_mem_append, List.forall_mem_cons]
  exact ⟨hfront i.function, hquote i.key.isQuote, fun _ => Argument.noLineEnd, hquote i.key.isQuote, hending⟩

end

/-! ## All passes -/

section

variable {i : Inline} (c : Collection)

theorem scanCalls_line :
    (LineScan.scanCalls c i.line).value =
        ((LineScan.callRegions c.limits i.line).filter fun r => i.overruns r.left r.leftAfter).foldl
          (fun c r => (LineScan.addCall c r).value) c ∧
      (LineScan.scanCalls c i.line).value.limits = c.limits := by
  rw [LineScan.scanCalls, Logged.value_foldlM]
  refine LineScan.foldl_filter LineScan.limits_addCall (fun c' hc' r hr hp => ?_) rfl
  have hwithin := LineScan.callRegions_within c.limits i.line r hr
  rcases literal_unquoted hwithin with h | ⟨-, h⟩
  · exact LineScan.addCall_unquoted c' h (by rw [hc']; exact hwithin.short)
  · rw [hp] at h
    cases h

theorem scanExports_line :
    (LineScan.scanExports c i.line).value =
      ((LineScan.exportRegions c.limits i.line).filter fun r => i.overruns r.left r.leftAfter).foldl
        (fun c r => (c.addLiteral r.literal).value) c := by
  rw [LineScan.scanExports, Logged.value_foldlM]
  have hlimits : ∀ (c : Collection) (r : LineScan.Region Text), (c.addLiteral r.literal).value.limits = c.limits :=
    fun c r => LineScan.limits_addLiteral c r.literal []
  refine (LineScan.foldl_filter hlimits (fun c' hc' r hr hp => ?_) rfl).1
  have hwithin := LineScan.exportRegions_within c.limits i.line r hr
  rcases literal_unquoted hwithin with h | ⟨-, h⟩
  · exact LineScan.addLiteral_unquoted c' h (by rw [hc']; exact hwithin.short) []
  · rw [hp] at h
    cases h

/-- The line scan adds the key of the call, and what overruns the key. -/
theorem scan_line (hkey : i.key.fits maxKeyChars) (hvalue : ∀ v ∈ i.value, v.fits maxValueChars) :
    (LineScan.scan c i.line).value =
      i.overrunning.foldl (fun c k => c.add k k) ((i.addOverrunning c).add i.key.text i.text) := by
  obtain ⟨hcalls, hlimits⟩ := scanCalls_line (i := i) c
  have hliterals : (LineScan.scanExports (LineScan.scanCalls c i.line).value i.line).value = i.addOverrunning c := by
    rw [scanExports_line, hlimits, hcalls]
    rfl
  simp only [LineScan.scan, Logged.value_bind, hliterals]
  show LineScan.scanLines (i.addOverrunning c) i.line = _
  rw [LineScan.scanLines, lines_line, List.foldl_cons, List.foldl_nil, LineScan.scanLine,
    findAll_inlineCall hkey hvalue, ← overrunning_eq, List.foldl_map]
  rfl

variable {c} (hclosed : i.value.isSome = true → i.KeyClosed c.limits)

include hclosed

theorem addOverrunning_closed : i.addOverrunning c = c := by
  have hcalls : ((LineScan.callRegions c.limits i.line).filter fun r => i.overruns r.left r.leftAfter).foldl
      (fun c r => (LineScan.addCall c r).value) c = c := by
    refine LineScan.foldl_same fun r hr => ?_
    obtain ⟨hr, hover⟩ := List.mem_filter.1 hr
    have hwithin := LineScan.callRegions_within c.limits i.line r hr
    rcases literal_unquoted hwithin with h | ⟨hvalue, -⟩
    · exact LineScan.addCall_unquoted c h hwithin.short
    · rw [(hclosed hvalue).calls r hr] at hover
      cases hover
  rw [addOverrunning]
  simp only [hcalls]
  refine LineScan.foldl_same fun r hr => ?_
  obtain ⟨hr, hover⟩ := List.mem_filter.1 hr
  have hwithin := LineScan.exportRegions_within c.limits i.line r hr
  rcases literal_unquoted hwithin with h | ⟨hvalue, -⟩
  · exact LineScan.addLiteral_unquoted c h hwithin.short []
  · rw [(hclosed hvalue).exports r hr] at hover
    cases hover

theorem overrunning_closed : i.overrunning = [] := by
  rw [overrunning, List.map_eq_nil_iff, List.filter_eq_nil_iff]
  intro f hf hover
  rw [(hclosed (elementKey_overruns hf).1).attributes f hf] at hover
  cases hover

end

end Inline

/-! ## Its tree -/

namespace KeyRule

open TypeScript (Node)

def IsTranslateOf (isTarget : Node → Prop) (g : Node) : Prop :=
  g.kind = .member ∧ (∃ p, g.child? .property = some p ∧ p.text = "t") ∧
    ∃ o, g.child? .object = some o ∧ isTarget o

def IsHook (o : Node) : Prop :=
  o.kind = .call ∧ (∃ f, o.child? .function = some f ∧ f.kind = .identifier ∧ f.text = hookName) ∧
    ∃ a, o.child? .arguments = some a ∧ a.kind = .arguments ∧ a.parts = []

def IsFunction (g : Node) : Translate → Prop
  | .direct => g.kind = .identifier ∧ g.text = "t"
  | .member => IsTranslateOf (fun o => o.kind = .identifier ∧ o.text = "i18n") g
  | .hook => IsTranslateOf IsHook g

/-- The node of a call, whose arguments, comments aside, are its strings. -/
structure IsInline (n : Node) (i : Inline) : Prop where
  kind : n.kind = .call
  function : ∃ g, n.child? .function = some g ∧ IsFunction g i.function
  arguments : ∃ a, n.child? .arguments = some a ∧ a.kind = .arguments ∧ List.Forall₂ IsString a.parts i.strings
  source : n.text = i.source

theorem reads_eq {n : Node} {t : Text} (h : n.text = t) : Node.reads t n = true := by
  rw [Node.reads, h, beq_self_eq_true]

theorem isTranslate_isFunction {g : Node} {f : Translate} (h : IsFunction g f) : isTranslate g = true := by
  cases f with
  | direct =>
    obtain ⟨hkind, htext⟩ := h
    rw [isTranslate, hkind]
    exact reads_eq htext
  | member =>
    obtain ⟨hkind, ⟨p, hp, hproperty⟩, o, ho, hobject, htext⟩ := h
    simp only [isTranslate, hkind, hp, ho, Option.any_some, reads_eq hproperty, hobject, reads_eq htext, Bool.and_self]
  | hook =>
    obtain ⟨hkind, ⟨p, hp, hproperty⟩, o, ho, hcall, ⟨f, hf, hidentifier, htext⟩, a, ha, harguments, hparts⟩ := h
    have hcallee : Shape.callee? o = some hookName := by
      rw [Shape.callee?, hf, Option.filter_some, if_pos (by simp [hidentifier]), Option.map_some, htext]
    have hempty : Shape.arguments o = [] := by
      simp only [Shape.arguments, ha, harguments, if_true, hparts]
    simp only [isTranslate, hkind, hp, ho, Option.any_some, reads_eq hproperty, hcall, hcallee, hempty,
      beq_self_eq_true, List.isEmpty_nil, Bool.and_self]

theorem inlineKey_isInline {n : Node} {i : Inline} (h : IsInline n i) : inlineKey? n = some (i.key.text, i.text) := by
  obtain ⟨a, ha, hkind, hstrings⟩ := h.arguments
  have harguments : Shape.arguments n = a.parts := by
    simp only [Shape.arguments, ha, hkind, if_true]
  rw [inlineKey?, harguments]
  generalize a.parts = ps at hstrings
  cases hstrings with
  | @cons k _ rest _ hk hrest =>
    have hkey : Shape.stringValue k = some i.key.text := by
      rw [stringValue_isString hk, Argument.denoted_string]
    have hvalue : rest.head?.bind Shape.stringValue = i.value.map Argument.text := by
      cases hv : i.value with
      | none =>
        rw [hv] at hrest
        cases hrest
        rfl
      | some v =>
        rw [hv] at hrest
        cases hrest with
        | cons hstring _ =>
          show Shape.stringValue _ = some v.text
          rw [stringValue_isString hstring, Argument.denoted_string]
    simp only [hkey, hvalue, Option.map_some]
    rfl

/-- The rule adds the text under the key, or rejects the key. The line scan does so too,
besides what overruns the key, which is nothing if there is one argument or the key is
closed. -/
theorem inlineCall_scanned {n : Node} {i : Inline} (hn : IsInline n i) (hkey : i.key.fits maxKeyChars)
    (hvalue : ∀ v ∈ i.value, v.fits maxValueChars) (c : Collection) :
    inlineCall.applies n = true ∧
      (inlineCall.gather n c).value = c.add i.key.text i.text ∧
      (LineScan.scan c (n.text ++ ";")).value =
        i.overrunning.foldl (fun c k => c.add k k) (inlineCall.gather n (i.addOverrunning c)).value ∧
      ((i.value.isSome = true → i.KeyClosed c.limits) →
        (LineScan.scan c (n.text ++ ";")).value = (inlineCall.gather n c).value) := by
  obtain ⟨g, hg, hfunction⟩ := hn.function
  have happlies : inlineCall.applies n = true := by
    simp [applies, inlineCall, hn.kind, hg, isTranslate_isFunction hfunction]
  have hgather : ∀ c, (inlineCall.gather n c).value = c.add i.key.text i.text := by
    intro c
    show (inlineKey? n).elim c (fun e => c.add e.1 e.2) = _
    rw [inlineKey_isInline hn]
    rfl
  have hscan : (LineScan.scan c (n.text ++ ";")).value =
      i.overrunning.foldl (fun c k => c.add k k) (inlineCall.gather n (i.addOverrunning c)).value := by
    rw [hgather, hn.source]
    exact Inline.scan_line c hkey hvalue
  refine ⟨happlies, hgather c, hscan, fun hclosed => ?_⟩
  rw [hscan, Inline.addOverrunning_closed hclosed, Inline.overrunning_closed hclosed]
  rfl

/-! ### A call -/

def hookInline : Inline where
  function := .hook
  key := ⟨'\'', "a.b", Quoted.isQuote_single, by decide +kernel⟩
  value := some ⟨'`', "defineMessages(\x7bx: y\x7d)", Quoted.isQuote_template, by decide +kernel⟩

def hookCall : Node :=
  let node := nodeOf "useTranslation().t('a.b', `defineMessages(\x7bx: y\x7d)`);"
  node .call none 0 51
    [node .member (some .function) 0 18
      [node .call (some .object) 0 16
        [node .identifier (some .function) 0 14 [], node .arguments (some .arguments) 14 2 []],
        node .propertyIdentifier (some .property) 17 1 []],
      node .arguments (some .arguments) 18 33 [node .string none 19 5 [], node .template none 26 24 []]]

theorem hookCall_isInline : IsInline hookCall hookInline where
  kind := rfl
  function :=
    ⟨_, rfl, rfl, ⟨_, rfl, by decide +kernel⟩, _, rfl, rfl, ⟨_, rfl, rfl, by decide +kernel⟩, _, rfl, rfl, rfl⟩
  arguments := ⟨_, rfl, rfl, .cons ⟨by decide +kernel, rfl⟩ (.cons ⟨by decide +kernel, rfl, rfl⟩ .nil)⟩
  source := by decide +kernel

theorem inlineCall_scanned_hook :
    (LineScan.scan { file := "a.ts" } (hookCall.text ++ ";")).value.keys.entries =
        [(("a.b" : Text), ("defineMessages(\x7bx: y\x7d)" : Text))] ∧
      (LineScan.scan { file := "a.ts" } (hookCall.text ++ ";")).value.rejected.toList = [] := by
  have hkey : hookInline.key.fits maxKeyChars := ⟨by decide +kernel, by decide +kernel⟩
  have hvalue : ∀ v ∈ hookInline.value, v.fits maxValueChars := by
    intro v hv
    obtain rfl := Option.some.inj hv
    exact ⟨by decide +kernel, by decide +kernel⟩
  have hclosed : hookInline.KeyClosed {} := ⟨by decide +kernel, by decide +kernel, by decide +kernel⟩
  obtain ⟨-, hall, -, hsame⟩ := inlineCall_scanned hookCall_isInline hkey hvalue { file := "a.ts" }
  rw [hsame fun _ => hclosed, hall]
  decide +kernel

/-! ### Calls that are read differently -/

def directCall (k v : Text) : Node :=
  let node := nodeOf (("t('" : Text) ++ (k ++ (("', '" : Text) ++ (v ++ ("');" : Text)))))
  node .call none 0 (k.length + v.length + 9)
    [node .identifier (some .function) 0 1 [],
      node .arguments (some .arguments) 1 (k.length + v.length + 8)
        [node .string none 2 (k.length + 2) [], node .string none (k.length + 6) (v.length + 2) []]]

def recorded (c : Collection) : List (Text × Text) × List Text := (c.keys.entries, c.rejected.toList)

/-- What the rule records for a call, and what the line scan records for it. -/
def recordedBothWays (n : Node) : (List (Text × Text) × List Text) × (List (Text × Text) × List Text) :=
  (recorded (inlineCall.gather n { file := "a.ts" }).value,
    recorded (LineScan.scan { file := "a.ts" } (n.text ++ ";")).value)

/-- An attribute and an object literal that overrun the key, and empty arguments. -/
theorem inlineCall_scanned_differs :
    recordedBothWays (directCall "i18nKey=" "v") =
        (([], [("i18nKey=" : Text)]), ([], [("i18nKey=" : Text), (", " : Text)])) ∧
      recordedBothWays (directCall "defineMessages(\x7ba: \x7bid: " "\x7d\x7d") =
        (([], [("defineMessages(\x7ba: \x7bid: " : Text)]),
          ([(("a" : Text), (", " : Text))], [("defineMessages(\x7ba: \x7bid: " : Text)])) ∧
      recordedBothWays (directCall "" "v") = (([], [[]]), ([], [])) ∧
      recordedBothWays (directCall "a" "") = (([(("a" : Text), [])], []), ([(("a" : Text), ("a" : Text))], [])) := by
  refine ⟨?_, ?_, ?_, ?_⟩
  all_goals decide +kernel

end KeyRule

end MessageCatalog.Extraction
