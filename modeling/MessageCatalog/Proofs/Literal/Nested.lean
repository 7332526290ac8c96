/-
  MessageCatalog.Proofs.Literal.Nested — an object as the value of a property, and by itself.

  An object that is found by counting braces in another one and an object that is read from its
  own first brace hold the same text between their braces, whatever that is. The texts in it are
  the same ones, with a name more in front of them and a level less to go.

  Proved: a literal whose one property has a literal for its value gives what that one gives by
  itself below the name of the property, to a depth of one less (`flatten_nested`).
-/

import MessageCatalog.Proofs.Literal.Depth
import MessageCatalog.Proofs.Literal.Located

namespace MessageCatalog.Literal

open Source

/-! ## An object in an object -/

section

variable {inside : Text} (hinside : IsInside inside)

include hinside

theorem textsOf_braced (limits : Limits) :
    textsOf limits (('{' : Code) :: (inside ++ [('}' : Code)])) =
      (textsIn limits inside).filter (Entry.isWithin limits 0) := by
  simp only [textsOf, objectLiteral_inside hinside [], inside_braced]

variable (head : Head)

theorem isInside_nested : IsInside (head.print ++ ('{' : Code) :: (inside ++ [('}' : Code)])) := by
  intro depth hd after
  rw [List.append_assoc, closingBrace_head, List.cons_append, List.append_assoc]
  exact closingBrace_group .curly hd fun hd => hinside hd _

theorem textsIn_nested {limits : Limits} (hh : head.fits limits = true) :
    textsIn limits (head.print ++ ('{' : Code) :: (inside ++ [('}' : Code)])) =
      (textsIn limits inside).map (Entry.below head.name.denoted) := by
  have hnone : textsIn limits [] = [] := by rw [textsIn_eq, front, skipTrivia_nil]
  rw [textsIn_eq, front_head limits head hh (skipTrivia_cons (by decide) (by decide) _)]
  simp only [propertyTexts, beq_self_eq_true, if_true, hinside.closes [], upTo_append, List.tail_cons, hnone,
    List.append_nil]

/-- The texts of the outer object are those of the inner one, a level further down. -/
theorem textsOf_nested {limits : Limits} (hh : head.fits limits = true) (hdepth : 1 ≤ limits.maxDepth) :
    textsOf limits (('{' : Code) :: (head.print ++ ('{' : Code) :: (inside ++ [('}' : Code)]) ++ [('}' : Code)])) =
      (textsOf { limits with maxDepth := limits.maxDepth - 1 } (('{' : Code) :: (inside ++ [('}' : Code)]))).map
        (Entry.below head.name.denoted) := by
  rw [textsOf_braced (isInside_nested hinside head), textsOf_braced hinside, textsIn_nested hinside head hh,
    textsIn_maxDepth limits (limits.maxDepth - 1), List.filter_map, isWithin_below, isWithin_pred hdepth]

end

theorem isInside_whole {literal : Text} (hopen : literal.head? = some ('{' : Code))
    (hclose : closingBraceAt literal 0 literal.length = some (literal.length - 1)) :
    ∃ inside, literal = ('{' : Code) :: (inside ++ [('}' : Code)]) ∧ IsInside inside := by
  obtain ⟨t, rfl⟩ := List.head?_eq_some_iff.1 hopen
  rw [closingBraceAt, Text.window_whole] at hclose
  obtain ⟨s, hs, hposition⟩ := Option.map_eq_some_iff.1 hclose
  obtain ⟨inside, after, rfl, rfl, hinside⟩ := isInside_of_closes hs
  obtain rfl : after = [] := by
    simp [positionOf] at hposition
    refine List.eq_nil_of_length_eq_zero ?_
    omega
  exact ⟨inside, rfl, hinside⟩

/-- A literal below a name gives what it gives by itself below the key of that name, to a depth of
one less. -/
theorem flatten_nested (limits : Limits) (base : Text) {name literal : Text} (hname : Key.isSegment name = true)
    (hshort : name.length ≤ limits.maxKeyLength) (hdepth : 1 ≤ limits.maxDepth)
    (hopen : literal.head? = some ('{' : Code))
    (hclose : closingBraceAt literal 0 literal.length = some (literal.length - 1))
    (hlen : (('{' : Code) :: (name ++ (':' : Code) :: (literal ++ [('}' : Code)]))).length ≤
      limits.maxContentLength) :
    ∃ f, (flatten limits base (('{' : Code) :: (name ++ (':' : Code) :: (literal ++ [('}' : Code)])))).run.value =
        .ok f ∧
      (flatten { limits with maxDepth := limits.maxDepth - 1 } (Key.under base name) literal).run.value = .ok f := by
  obtain ⟨inside, rfl, hinside⟩ := isInside_whole hopen hclose
  cases name with
  | nil => cases hname
  | cons c r =>
    obtain ⟨hc, hr⟩ := Bool.and_eq_true_iff.1 hname
    let head : Head := ⟨[], .bare c r hc hr, [], []⟩
    have hfits : head.fits limits = true := decide_eq_true hshort
    have hinner : (('{' : Code) :: (inside ++ [('}' : Code)])).length ≤ limits.maxContentLength := by
      simp at hlen ⊢
      omega
    have hprint : ('{' : Code) :: (head.print ++ ('{' : Code) :: (inside ++ [('}' : Code)]) ++ [('}' : Code)]) =
        ('{' : Code) :: (c :: r ++ (':' : Code) :: (('{' : Code) :: (inside ++ [('}' : Code)]) ++ [('}' : Code)])) := by
      simp [head, Head.print, Name.print, Gap.print]
    have htexts := textsOf_nested hinside head hfits hdepth
    rw [hprint] at htexts
    refine ⟨_, flatten_texts base hlen, ?_⟩
    rw [htexts, List.map_map]
    exact flatten_texts (Key.under base (c :: r)) hinner

def Source.tangled : Text := "\x7b) a b: 'x', ] 'c d': \"y\", e: \x7bf: \x7bg: 'z'\x7d, h: 'u'\x7d, b: `w`\x7d"

theorem flatten_nested_sample :
    let limits : Limits := { maxDepth := 2 }
    let outer : Text := ('{' : Code) :: (("p" : Text) ++ (':' : Code) :: (Source.tangled ++ [('}' : Code)]))
    (Key.isSegment "p" = true ∧ Source.tangled.head? = some ('{' : Code) ∧
        closingBraceAt Source.tangled 0 Source.tangled.length = some (Source.tangled.length - 1)) ∧
      ∃ f, (flatten limits "q" outer).run.value = .ok f ∧
        (flatten { limits with maxDepth := 1 } "q.p" Source.tangled).run.value = .ok f ∧
        f.entries.entries = ([("q.p.b", "w"), ("q.p.e.h", "u")] : List (Text × Text)) ∧
        f.rejected.toList = (["q.p.c d"] : List Text) := by
  intro limits outer
  have hname : Key.isSegment "p" = true := by decide +kernel
  have hopen : Source.tangled.head? = some ('{' : Code) := by decide +kernel
  have hclose : closingBraceAt Source.tangled 0 Source.tangled.length = some (Source.tangled.length - 1) := by
    decide +kernel
  have hlen : outer.length ≤ limits.maxContentLength := by decide +kernel
  obtain ⟨f, houter, hinner⟩ := flatten_nested limits "q" hname (by decide +kernel) (by decide) hopen hclose hlen
  obtain rfl := flatten_ok houter
  refine ⟨⟨hname, hopen, hclose⟩, _, houter, hinner, ?_, ?_⟩
  all_goals decide +kernel

end MessageCatalog.Literal
