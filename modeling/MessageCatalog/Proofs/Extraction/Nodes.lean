/-
  MessageCatalog.Proofs.Extraction.Nodes — the nodes of names, strings and objects.

  A node is that of a name or of a string when its kind and its source say so; reading it
  gives what the name or the string denotes.
-/

import MessageCatalog.Extraction.KeyRule
import MessageCatalog.Proofs.Literal.Cursor

namespace MessageCatalog.Extraction.KeyRule

open Literal.Source (Name Quoted)
open TypeScript (Node)

def IsName (n : Node) : Name → Prop
  | .bare c r _ _ => n.kind = .propertyIdentifier ∧ n.text = c :: r
  | .quoted s _ => n.kind = .string ∧ n.text = s.print

/-- The node of a string, or of a template without substitutions. -/
def IsString (n : Node) (s : Quoted) : Prop :=
  n.text = s.print ∧
    if s.quote = '`' then n.kind = .template ∧ n.childOfKind? .substitution = none else n.kind = .string

theorem propertyName_isName {n : Node} {name : Name} (h : IsName n name) : Shape.propertyName n = some name.denoted := by
  cases name with
  | bare c r _ _ =>
    obtain ⟨hkind, htext⟩ := h
    rw [Shape.propertyName, hkind, htext]
    rfl
  | quoted s _ =>
    obtain ⟨hkind, htext⟩ := h
    rw [Shape.propertyName, hkind, htext]
    exact Literal.unquote_print s

theorem unwrap_eq {n : Node} (h : Shape.isTransparent n.kind = false) : Shape.unwrap n = some n := by
  cases n with
  | mk k r s cs => rw [Shape.unwrap, if_neg (by simpa [Node.kind] using h)]

theorem stringValue_isString {n : Node} {s : Quoted} (h : IsString n s) : Shape.stringValue n = some s.denoted := by
  obtain ⟨htext, h⟩ := h
  split at h
  · obtain ⟨hkind, hnone⟩ := h
    rw [Shape.stringValue, unwrap_eq (by rw [hkind]; rfl), Option.bind_some, hkind, hnone, htext]
    exact Literal.unquote_print s
  · rw [Shape.stringValue, unwrap_eq (by rw [h]; rfl), Option.bind_some, h, htext]
    exact Literal.unquote_print s

theorem asObject_eq {o : Node} (h : o.kind = .object) : Shape.asObject o = some o := by
  rw [Shape.asObject, unwrap_eq (by rw [h]; rfl), Option.filter_some, if_pos (by simp [Shape.isObject, h])]

def nodeOf (source : Text) (kind : TypeScript.Kind) (role : Option TypeScript.Role) (start size : Nat)
    (children : List Node) : Node :=
  .mk kind role ⟨source.drop start, size⟩ children

end MessageCatalog.Extraction.KeyRule
