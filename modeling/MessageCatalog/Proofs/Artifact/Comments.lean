/-
  MessageCatalog.Proofs.Artifact.Comments — a comment in front of an artifact.

  What stands behind an anchor is read with its comments skipped, but the anchors are searched in
  the text as it is, and of each kind only the first counts. Behind the end of a line each anchor
  of the artifact is recognized as it was; what is recognized in the comment takes the place of
  the artifact's own anchor of that kind.

  Proved: the keys of a commented artifact are those behind the anchors of the comment, and behind
  the artifact's own of the kinds that the comment has none of. So they are those of the artifact
  if no anchor starts in the comment, as in any that has neither of the words that anchors start
  with (`keySet_commented`). A comment that has one of them can hide every key
  (`keySet_commented_differs`).
-/

import MessageCatalog.Proofs.Artifact.KeySet
import MessageCatalog.Proofs.Text

namespace MessageCatalog.Artifact

open Extraction Anchor Literal

/-! ## Anchors in a comment -/

/-- A comment that has a line to itself. -/
def commentLine (c : Text) : Text := ("//" : Text) ++ c ++ "\n"

/-- The first match that starts in the comment in front of `t`, and what follows it. -/
def startingIn (recognize : Option Code → Text → Option Text) (c t : Text) : Option (Text × Text) :=
  findFirstIn (fun before s => (recognize before s).map fun r => (s, r)) none (commentLine c) t

theorem locate_commented {recognize : Option Code → Text → Option Text}
    (hline : ∀ t, recognize (some '\n') t = recognize none t) (c t : Text) :
    locate recognize (commentLine c ++ t) = (startingIn recognize c t).or (locate recognize t) := by
  have hlast : (commentLine c).getLast?.or none = some ('\n' : Code) := by
    rw [commentLine, List.getLast?_append]
    rfl
  rw [locate, findFirst_append, hlast]
  congr 1
  cases t with
  | nil => rfl
  | cons d t => rw [locate, findFirst, findFirst, hline]

theorem messagesProperty_line (t : Text) : messagesProperty (some '\n') t = messagesProperty none t := rfl

theorem messagesConstant_line (t : Text) : messagesConstant (some '\n') t = messagesConstant none t := rfl

theorem word_commented {w c : Text} (hfeed : ('\n' : Code) ∉ w) (hslash : w.head? ≠ some ('/' : Code)) (hne : w ≠ [])
    (h : Text.contains w c = false) {n : Nat} (hn : n < (commentLine c).length) (before : Option Code) (t : Text) :
    word w before ((commentLine c).drop n ++ t) = none := by
  cases hword : word w before ((commentLine c).drop n ++ t) with
  | none => rfl
  | some r =>
    have hline : commentLine c = ('/' : Code) :: ('/' : Code) :: c ++ [('\n' : Code)] := rfl
    have hle : n ≤ (('/' : Code) :: ('/' : Code) :: c).length := by
      rw [hline, List.length_append, List.length_singleton] at hn
      omega
    have hprefix : w <+: (('/' : Code) :: ('/' : Code) :: c).drop n ++ ('\n' : Code) :: t := by
      have hsplit := word_split hword
      rw [hline, List.drop_append_of_le_length hle, List.append_assoc] at hsplit
      exact ⟨r, hsplit.symm⟩
    have hinfix : w <:+: ('/' : Code) :: ('/' : Code) :: c :=
      (Text.prefix_line hfeed hprefix).isInfix.trans (List.drop_suffix n _).isInfix
    have hstart (u : Text) : ¬ w <+: ('/' : Code) :: u := by
      intro hw
      cases w with
      | nil => exact hne rfl
      | cons d w =>
        obtain ⟨rfl, -⟩ := List.cons_prefix_cons.1 hw
        exact hslash rfl
    have hc : w <:+: c := by
      have hone := (List.infix_cons_iff.1 hinfix).resolve_left (hstart _)
      exact (List.infix_cons_iff.1 hone).resolve_left (hstart _)
    rw [Text.contains_iff.2 hc] at h
    cases h

theorem property_unstarted {c : Text} (h : Text.contains "messages" c = false) (t : Text) :
    startingIn messagesProperty c t = none := by
  refine findFirstIn_eq_none fun n hn before => ?_
  rw [messagesProperty, property_none (word_commented (by decide) (by decide) (by decide) h hn before t)]
  rfl

theorem constant_unstarted {c : Text} (h : Text.contains "export" c = false) (t : Text) :
    startingIn messagesConstant c t = none := by
  refine findFirstIn_eq_none fun n hn before => ?_
  rw [messagesConstant_none (word_commented (by decide) (by decide) (by decide) h hn before t)]
  rfl

/-! ## The keys -/

/-- What follows the first anchors, a property `p` and a constant `c`, in the order of the text. -/
def ordered (p c : Option (Text × Text)) : List Text :=
  match p, c with
  | some (p, afterP), some (c, afterC) => if c.length ≤ p.length then [afterP, afterC] else [afterC, afterP]
  | some (_, r), none | none, some (_, r) => [r]
  | none, none => []

theorem anchors_ordered (t : Text) : anchors t = ordered (locate messagesProperty t) (locate messagesConstant t) := rfl

def keysBehind (limits : Limits) (after : List Text) : Attempt (List Text) :=
  match (after.findSome? objectLiteral).map (·.text) with
  | some literal => flattenedKeys limits [] literal
  | none => return []

theorem keySet_anchors (limits : Limits) (t : Text) : keySet limits t = keysBehind limits (anchors t) := rfl

/-- Behind a comment, the anchors of an artifact count as far as the comment has none of their
kind. Its keys are found as without the comment if no anchor starts in it, in particular if it has
neither of the words that anchors start with. -/
theorem keySet_commented (limits : Limits) (c t : Text) :
    keySet limits (commentLine c ++ t) =
        keysBehind limits (ordered ((startingIn messagesProperty c t).or (locate messagesProperty t))
          ((startingIn messagesConstant c t).or (locate messagesConstant t))) ∧
      (startingIn messagesProperty c t = none → startingIn messagesConstant c t = none →
        keySet limits (commentLine c ++ t) = keySet limits t) ∧
      (Text.contains "messages" c = false → Text.contains "export" c = false →
        keySet limits (commentLine c ++ t) = keySet limits t) := by
  have hkeys : keySet limits (commentLine c ++ t) =
      keysBehind limits (ordered ((startingIn messagesProperty c t).or (locate messagesProperty t))
        ((startingIn messagesConstant c t).or (locate messagesConstant t))) := by
    rw [keySet_anchors, anchors_ordered, locate_commented messagesProperty_line,
      locate_commented messagesConstant_line]
  have hunstarted (hp : startingIn messagesProperty c t = none) (hc : startingIn messagesConstant c t = none) :
      keySet limits (commentLine c ++ t) = keySet limits t := by
    rw [hkeys, hp, hc, Option.none_or, Option.none_or]
    rfl
  exact ⟨hkeys, hunstarted, fun hp hc => hunstarted (property_unstarted hp t) (constant_unstarted hc t)⟩

theorem keySet_commented_sample :
    (Text.contains "messages" " title: 'x' \x7b" = false ∧ Text.contains "export" " title: 'x' \x7b" = false) ∧
      (keySet {} "// title: 'x' \x7b\nf(\x7bmessages: \x7ba: 'x'\x7d\x7d)").run.value = .ok (["a"] : List Text) := by
  have hproperty : Text.contains "messages" " title: 'x' \x7b" = false := by decide +kernel
  have hconstant : Text.contains "export" " title: 'x' \x7b" = false := by decide +kernel
  have hmessages : messages? "f(\x7bmessages: \x7ba: 'x'\x7d\x7d)" = some "\x7ba: 'x'\x7d" := by decide +kernel
  have hcommented : commentLine " title: 'x' \x7b" ++ "f(\x7bmessages: \x7ba: 'x'\x7d\x7d)" =
      "// title: 'x' \x7b\nf(\x7bmessages: \x7ba: 'x'\x7d\x7d)" := by decide +kernel
  refine ⟨⟨hproperty, hconstant⟩, ?_⟩
  rw [← hcommented, (keySet_commented {} _ _).2.2 hproperty hconstant, value_keySet {} {} hmessages,
    flattenOn_eq (not_overflows (by decide)), flatten_run [] (by decide +kernel)]
  exact congrArg Except.ok (by decide +kernel)

/-- The name of the property and a colon in a comment: the property itself is not looked at, and
nothing is found. -/
theorem keySet_commented_differs :
    (keySet {} "f(\x7bmessages: \x7ba: 'x'\x7d\x7d)").run.value = .ok (["a"] : List Text) ∧
      (keySet {} "// messages: x\nf(\x7bmessages: \x7ba: 'x'\x7d\x7d)").run.value = .ok [] := by
  have hmessages : messages? "f(\x7bmessages: \x7ba: 'x'\x7d\x7d)" = some "\x7ba: 'x'\x7d" := by decide +kernel
  have hnone : messages? "// messages: x\nf(\x7bmessages: \x7ba: 'x'\x7d\x7d)" = none := by decide +kernel
  refine ⟨?_, by rw [keySet, hnone]; rfl⟩
  rw [value_keySet {} {} hmessages, flattenOn_eq (not_overflows (by decide)), flatten_run [] (by decide +kernel)]
  exact congrArg Except.ok (by decide +kernel)

end MessageCatalog.Artifact
