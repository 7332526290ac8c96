/-
  MessageCatalog.Proofs.Key.Segments — the grammar of keys, in three ways.

  A key is read from left to right, with one bit of memory: whether a segment has to begin.
  The same texts are those whose pieces between dots are segments, and those of the language
  `segment (dot segment)*`, where a segment is a start followed by any number of codes that
  may follow it.
  - `isValid_iff_pieces`: by cutting. Between two dots, behind the last one, in front of the
    first one and in the empty text there is the empty piece, which is no segment.
  - `isValid_iff_language`: by the pattern. Nothing but the whole text counts, so a line feed at
    the end is not passed over.
  - `isValid_compositional`: both, and joining by a dot, whatever dots the parts have.
-/

import Mathlib.Computability.Language
import MessageCatalog.Proofs.Key
import MessageCatalog.Proofs.Text

namespace MessageCatalog

namespace Key

/-! ## Pieces between dots -/

theorem splitOn_dot (t : Text) : Text.splitOn '.' (('.' : Code) :: t) = [] :: Text.splitOn '.' t :=
  Text.splitOn_append (List.not_mem_nil) t

theorem splitOn_code {c : Code} (hc : c ≠ '.') {t piece : Text} {rest : List Text}
    (h : Text.splitOn '.' t = piece :: rest) : Text.splitOn '.' (c :: t) = (c :: piece) :: rest := by
  rw [Text.splitOn, h]
  simp only [if_neg hc]

/-- Inside a segment, the first piece goes on with it and all others are segments of their own. -/
theorem accepts_inside (t : Text) {piece : Text} {rest : List Text} (h : Text.splitOn '.' t = piece :: rest) :
    accepts false t = (piece.all continuesSegment && rest.all isSegment) ∧
      accepts true t = (isSegment piece && rest.all isSegment) := by
  induction t generalizing piece rest with
  | nil =>
    obtain ⟨rfl, rfl⟩ := List.cons.inj h
    exact ⟨rfl, rfl⟩
  | cons c t ih =>
    rcases hsplit : Text.splitOn '.' t with _ | ⟨first, others⟩
    · exact absurd hsplit (Text.splitOn_ne_nil _ t)
    obtain ⟨hin, hfresh⟩ := ih hsplit
    by_cases hc : c = '.'
    · subst hc
      rw [splitOn_dot, hsplit] at h
      obtain ⟨rfl, rfl⟩ := List.cons.inj h
      constructor
      · show accepts true t = _
        rw [hfresh]
        rfl
      · rfl
    · rw [splitOn_code hc hsplit] at h
      obtain ⟨rfl, rfl⟩ := List.cons.inj h
      constructor
      · rw [accepts, if_neg Bool.false_ne_true, if_neg hc, hin, List.all_cons, Bool.and_assoc]
      · rw [accepts, if_pos rfl, hin, isSegment, Bool.and_assoc]

theorem isValid_iff_pieces (t : Text) : isValid t = true ↔ ∀ piece ∈ Text.splitOn '.' t, isSegment piece = true := by
  rcases hsplit : Text.splitOn '.' t with _ | ⟨piece, rest⟩
  · exact absurd hsplit (Text.splitOn_ne_nil _ t)
  · rw [isValid, (accepts_inside t hsplit).2, Bool.and_eq_true, List.all_eq_true, List.forall_mem_cons]

/-- A letter of the alphabet, an underscore or a dollar sign, then any number of these and of digits. -/
theorem isSegment_iff (s : Text) :
    isSegment s = true ↔
      ∃ c r, s = c :: r ∧ (Text.isLetter c = true ∨ c = '_' ∨ c = '$') ∧
        ∀ d ∈ r, Text.isLetter d = true ∨ Text.isDigit d = true ∨ d = '_' ∨ d = '$' := by
  cases s with
  | nil => simp [isSegment]
  | cons c r =>
    simp only [isSegment, startsSegment, continuesSegment, Bool.and_eq_true, Bool.or_eq_true, beq_iff_eq,
      List.all_eq_true, List.cons.injEq]
    constructor
    · rintro ⟨hc, hr⟩
      refine ⟨c, r, ⟨rfl, rfl⟩, ?_, fun d hd => ?_⟩
      · tauto
      · have := hr d hd
        tauto
    · rintro ⟨c, r, ⟨rfl, rfl⟩, hc, hr⟩
      refine ⟨?_, fun d hd => ?_⟩
      · tauto
      · have := hr d hd
        tauto

/-! ## The language -/

def oneOf (p : Code → Bool) : Language Code := {t | ∃ c, p c = true ∧ t = [c]}

/-- One code point that starts a segment, and any number of those that continue one. -/
def segment : Language Code := oneOf startsSegment * KStar.kstar (oneOf continuesSegment)

def dot : Language Code := {[('.' : Code)]}

/-- A segment, and any number of segments with a dot in front. -/
def language : Language Code := segment * KStar.kstar (dot * segment)

theorem mem_kstar_oneOf (p : Code → Bool) (t : Text) : t ∈ KStar.kstar (oneOf p) ↔ ∀ c ∈ t, p c = true := by
  rw [Language.mem_kstar]
  constructor
  · rintro ⟨parts, rfl, hparts⟩ c hc
    obtain ⟨part, hpart, hcp⟩ := List.mem_flatten.1 hc
    obtain ⟨d, hd, rfl⟩ := hparts part hpart
    rwa [List.mem_singleton.1 hcp]
  · intro h
    refine ⟨t.map fun c => [c], ?_, ?_⟩
    · rw [← List.flatMap_def, List.flatMap_singleton']
    · intro part hpart
      obtain ⟨c, hc, rfl⟩ := List.mem_map.1 hpart
      exact ⟨c, h c hc, rfl⟩

theorem mem_segment (t : Text) : t ∈ segment ↔ isSegment t = true := by
  rw [segment, Language.mem_mul]
  constructor
  · rintro ⟨-, ⟨c, hc, rfl⟩, r, hr, rfl⟩
    show (startsSegment c && r.all continuesSegment) = true
    rw [hc, List.all_eq_true.2 ((mem_kstar_oneOf _ r).1 hr)]
    rfl
  · intro h
    cases t with
    | nil => cases h
    | cons c r =>
      obtain ⟨hc, hr⟩ := Bool.and_eq_true_iff.1 h
      exact ⟨[c], ⟨c, hc, rfl⟩, r, (mem_kstar_oneOf _ r).2 (List.all_eq_true.1 hr), rfl⟩

/-- Segments, each with a dot in front, are pieces behind a first one. -/
theorem mem_kstar_dotted (t : Text) :
    t ∈ KStar.kstar (dot * segment) ↔
      ∃ segments : List Text, t = segments.flatMap (fun s => ('.' : Code) :: s) ∧ ∀ s ∈ segments, isSegment s = true := by
  rw [Language.mem_kstar]
  constructor
  · rintro ⟨parts, rfl, hparts⟩
    induction parts with
    | nil => exact ⟨[], rfl, fun _ hs => absurd hs List.not_mem_nil⟩
    | cons part parts ih =>
      obtain ⟨hpart, hmore⟩ := List.forall_mem_cons.1 hparts
      obtain ⟨segments, hsegments, hall⟩ := ih hmore
      obtain ⟨d, hd, s, hs, rfl⟩ := Language.mem_mul.1 hpart
      obtain rfl : d = [('.' : Code)] := hd
      refine ⟨s :: segments, ?_, List.forall_mem_cons.2 ⟨(mem_segment s).1 hs, hall⟩⟩
      rw [List.flatten_cons, hsegments, List.flatMap_cons]
      rfl
  · rintro ⟨segments, rfl, hall⟩
    refine ⟨segments.map fun s => ('.' : Code) :: s, List.flatMap_def, fun part hpart => ?_⟩
    obtain ⟨s, hs, rfl⟩ := List.mem_map.1 hpart
    exact Language.mem_mul.2 ⟨[('.' : Code)], rfl, s, (mem_segment s).2 (hall s hs), rfl⟩

theorem not_mem_dot {s : Text} (h : isSegment s = true) : ('.' : Code) ∉ s := by
  intro hdot
  cases s with
  | nil => cases hdot
  | cons c r =>
    obtain ⟨hc, hr⟩ := Bool.and_eq_true_iff.1 h
    rcases List.mem_cons.1 hdot with rfl | hmem
    · exact absurd hc (by decide)
    · exact absurd (List.all_eq_true.1 hr _ hmem) (by decide)

/-- A text without dots and more with a dot in front of each are the pieces of what they make. -/
theorem splitOn_dotted {first : Text} (hfirst : ('.' : Code) ∉ first) {segments : List Text}
    (h : ∀ s ∈ segments, ('.' : Code) ∉ s) :
    Text.splitOn '.' (first ++ segments.flatMap fun s => ('.' : Code) :: s) = first :: segments := by
  induction segments generalizing first with
  | nil => rw [List.flatMap_nil, List.append_nil, Text.splitOn_plain hfirst]
  | cons s segments ih =>
    obtain ⟨hs, hmore⟩ := List.forall_mem_cons.1 h
    rw [List.flatMap_cons, List.cons_append, Text.splitOn_append hfirst, ih hs hmore]

theorem dotted_splitOn (t : Text) {first : Text} {rest : List Text} (h : Text.splitOn '.' t = first :: rest) :
    t = first ++ rest.flatMap fun s => ('.' : Code) :: s := by
  induction t generalizing first rest with
  | nil =>
    obtain ⟨rfl, rfl⟩ := List.cons.inj h
    rfl
  | cons c t ih =>
    rcases hsplit : Text.splitOn '.' t with _ | ⟨piece, others⟩
    · exact absurd hsplit (Text.splitOn_ne_nil _ t)
    have ht := ih hsplit
    by_cases hc : c = '.'
    · subst hc
      rw [splitOn_dot, hsplit] at h
      obtain ⟨rfl, rfl⟩ := List.cons.inj h
      rw [List.nil_append, List.flatMap_cons, List.cons_append, ← ht]
    · rw [splitOn_code hc hsplit] at h
      obtain ⟨rfl, rfl⟩ := List.cons.inj h
      rw [List.cons_append, ← ht]

theorem isValid_iff_language (t : Text) : isValid t = true ↔ t ∈ language := by
  rw [language, Language.mem_mul]
  constructor
  · intro h
    rcases hsplit : Text.splitOn '.' t with _ | ⟨first, rest⟩
    · exact absurd hsplit (Text.splitOn_ne_nil _ t)
    have hpieces := (isValid_iff_pieces t).1 h
    rw [hsplit] at hpieces
    obtain ⟨hfirst, hrest⟩ := List.forall_mem_cons.1 hpieces
    refine ⟨first, (mem_segment first).2 hfirst, _, (mem_kstar_dotted _).2 ⟨rest, rfl, hrest⟩, ?_⟩
    exact (dotted_splitOn t hsplit).symm
  · rintro ⟨first, hfirst, more, hmore, rfl⟩
    obtain ⟨segments, rfl, hall⟩ := (mem_kstar_dotted more).1 hmore
    have hfirst' := (mem_segment first).1 hfirst
    rw [isValid_iff_pieces]
    show ∀ piece ∈ Text.splitOn '.' (first ++ segments.flatMap fun s => ('.' : Code) :: s), isSegment piece = true
    rw [splitOn_dotted (not_mem_dot hfirst') fun s hs => not_mem_dot (hall s hs)]
    exact List.forall_mem_cons.2 ⟨hfirst', hall⟩

/-! ## Keys of keys -/

/-- The grammar is that of the pieces between dots, each of them a letter, an underscore or a dollar
sign and then any number of these and of digits; it is the language of the pattern; and two texts
joined by a dot are a key if and only if both are. -/
theorem isValid_compositional :
    (∀ t : Text, isValid t = true ↔ ∀ piece ∈ Text.splitOn '.' t,
      ∃ c r, piece = c :: r ∧ (Text.isLetter c = true ∨ c = '_' ∨ c = '$') ∧
        ∀ d ∈ r, Text.isLetter d = true ∨ Text.isDigit d = true ∨ d = '_' ∨ d = '$') ∧
      (∀ t : Text, isValid t = true ↔ t ∈ language) ∧
      ∀ p k : Text, isValid (p ++ ('.' : Code) :: k) = true ↔ isValid p = true ∧ isValid k = true := by
  refine ⟨fun t => ?_, isValid_iff_language, fun p k => ?_⟩
  · rw [isValid_iff_pieces]
    exact forall₂_congr fun piece _ => isSegment_iff piece
  · rw [isValid_join, Bool.and_eq_true]

example : isValid "a.$b_1" = true ∧ isValid "a..b" = false ∧ isValid ".a" = false ∧ isValid "a\n" = false := by decide

end Key

end MessageCatalog
