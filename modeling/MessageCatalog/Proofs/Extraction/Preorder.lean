/-
  MessageCatalog.Proofs.Extraction.Preorder — a tree is visited node by node, in order.

  A walk keeps the nodes still to come on a stack, and looks the rules up under the kind
  of a node. The plain program does without either: it takes a node, then its children
  one after another, and tries every rule at every node.

  Proved:
  - the rules under a kind are those that look at it, in their order (`forKind_eq`);
  - the walk meets every node once, before its children (`walk_preorder`);
  - gathering from a tree is the plain program, records in the log included
    (`gatherTree_visit`).
-/

import MessageCatalog.Extraction.Extract
import MessageCatalog.Proofs.Attempt
import MessageCatalog.Proofs.Table

namespace MessageCatalog.Extraction

open TypeScript (Node Kind)

/-! ## Rules by kind -/

namespace KeyRule

/-- The rules under a kind of node. -/
def under (t : Table Kind (List KeyRule)) (k : Kind) : List KeyRule := (t.get? k).getD []

theorem under_alter (t : Table Kind (List KeyRule)) (j : Kind) (r : KeyRule) (k : Kind) :
    under (t.alter j fun rs => rs.getD [] ++ [r]) k = under t k ++ if j = k then [r] else [] := by
  rw [under, Table.alter, Table.get?_insert]
  by_cases h : j = k
  · subst h
    simp [under]
  · rw [if_neg (by simpa using h), if_neg h, List.append_nil]
    rfl

theorem under_kinds {ks : List Kind} (h : ks.Nodup) (t : Table Kind (List KeyRule)) (r : KeyRule) (k : Kind) :
    under (ks.foldl (fun t k => t.alter k fun rs => rs.getD [] ++ [r]) t) k =
      under t k ++ if k ∈ ks then [r] else [] := by
  induction ks generalizing t with
  | nil => simp
  | cons j ks ih =>
    obtain ⟨hj, hks⟩ := List.nodup_cons.1 h
    rw [List.foldl_cons, ih hks, under_alter]
    by_cases hk : j = k
    · subst hk
      simp [hj]
    · simp [hk, Ne.symm hk]

/-- Of rules that name no kind twice, the index has those that name a kind, in their order. -/
theorem under_index {rules : List KeyRule} (h : ∀ r ∈ rules, r.kinds.Nodup) (k : Kind) :
    under (index rules) k = rules.filter (·.kinds.contains k) := by
  have hall : ∀ t, under (rules.foldl
      (fun t r => r.kinds.foldl (fun t k => t.alter k fun rs => rs.getD [] ++ [r]) t) t) k =
        under t k ++ rules.filter (·.kinds.contains k) := by
    induction rules with
    | nil => simp
    | cons r rules ih =>
      intro t
      rw [List.foldl_cons, ih fun s hs => h s (List.mem_cons_of_mem r hs), under_kinds (h r (by simp)),
        List.append_assoc]
      by_cases hk : k ∈ r.kinds <;> simp [hk]
  exact hall .empty

theorem forKind_eq (k : Kind) : forKind k = all.filter (·.kinds.contains k) := by
  have hall : ∀ ks ∈ all.map (·.kinds), ks.Nodup := by decide
  exact under_index (fun r hr => hall r.kinds (List.mem_map_of_mem hr)) k

theorem forKind_filter (n : Node) : (forKind n.kind).filter (·.test n) = all.filter (·.applies n) := by
  rw [forKind_eq, List.filter_filter]
  exact List.filter_congr fun r _ => Bool.and_comm _ _

end KeyRule

/-! ## The plain program -/

/-- Every rule at a node, in the order of the list; those that do not apply change nothing. -/
def tryRules (c : Collection) (n : Node) : Logged Collection :=
  KeyRule.all.foldlM (fun c r => if r.applies n then r.gather n c else return c) c

mutual

/-- A node, then its children from the first to the last. -/
def visit (c : Collection) : Node → Logged Collection
  | .mk k r s cs => do visitAll (← tryRules c (.mk k r s cs)) cs

def visitAll (c : Collection) : List Node → Logged Collection
  | [] => return c
  | n :: ns => do visitAll (← visit c n) ns

end

theorem gatherNode_tryRules (c : Collection) (n : Node) : gatherNode c n = tryRules c n := by
  rw [gatherNode, KeyRule.forKind_filter, List.foldlM_filter]
  rfl

theorem preorderAll_append (ns ms : List Node) :
    Node.preorderAll (ns ++ ms) = Node.preorderAll ns ++ Node.preorderAll ms := by
  induction ns with
  | nil => rfl
  | cons n ns ih => rw [List.cons_append, Node.preorderAll, ih, Node.preorderAll, List.append_assoc]

/-- The stack holds nothing but what comes next in the order of the text. -/
theorem walk_preorder (stack : List Node) : Node.walk stack = Node.preorderAll stack := by
  fun_induction Node.walk stack with
  | case1 => rfl
  | case2 n ns ih =>
    rw [ih, preorderAll_append]
    cases n
    rw [Node.preorderAll, Node.preorder, List.cons_append]
    rfl

mutual

theorem foldlM_preorder (c : Collection) (n : Node) : n.preorder.foldlM gatherNode c = visit c n := by
  match n with
  | .mk k r s cs =>
    rw [Node.preorder, List.foldlM_cons, visit, gatherNode_tryRules]
    exact bind_congr fun c => foldlM_preorderAll c cs

theorem foldlM_preorderAll (c : Collection) (ns : List Node) :
    (Node.preorderAll ns).foldlM gatherNode c = visitAll c ns := by
  match ns with
  | [] => rfl
  | n :: ns =>
    rw [Node.preorderAll, List.foldlM_append, visitAll, foldlM_preorder c n]
    exact bind_congr fun c => foldlM_preorderAll c ns

end

theorem gatherTree_visit (c : Collection) (root : Node) : gatherTree c root = visit c root := by
  rw [gatherTree, walk_preorder, Node.preorderAll, Node.preorderAll, List.append_nil, foldlM_preorder]

end MessageCatalog.Extraction
