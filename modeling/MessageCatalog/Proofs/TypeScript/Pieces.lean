/-
  MessageCatalog.Proofs.TypeScript.Pieces — every node of a tree is a piece of its text.

  A node keeps the text from its start on. Whatever builds a node gives it what is left of
  the text there, or, where a suffix takes its base in, what the base was given; so each
  node of a run starts at an ending of the text, by induction on the run.

  Proved: the source of each node of a tree stands in the text that was parsed
  (`parse_cut`, `Node.Cut.text_piece`). Of a parser in its place this is all that is asked
  (`Parser.Faithful`, `parse_faithful`).
-/

import Mathlib.Data.List.Basic
import MessageCatalog.TypeScript.Parse

namespace MessageCatalog.TypeScript

/-! ## Trees -/

/-- The node and those below it start at endings of the text. -/
inductive Node.Cut (t : Text) : Node → Prop
  | mk {k : Kind} {r : Option Role} {s : Span} {cs : List Node} (source : s.source <:+ t)
      (children : ∀ n ∈ cs, Cut t n) : Cut t (.mk k r s cs)

namespace Node.Cut

variable {t : Text} {n : Node}

theorem span (h : n.Cut t) : n.span.source <:+ t := by
  obtain ⟨hsource, -⟩ := h
  exact hsource

theorem child (h : n.Cut t) : ∀ m ∈ n.children, m.Cut t := by
  obtain ⟨-, hchildren⟩ := h
  exact hchildren

theorem text_piece (h : n.Cut t) : n.text <:+: t := (List.take_prefix _ _).isInfix.trans h.span.isInfix

theorem suffix {u : Text} (hu : t <:+ u) (h : n.Cut t) : n.Cut u := by
  induction h with
  | mk source _ ih => exact .mk (source.trans hu) ih

theorem withRole (h : n.Cut t) (r : Role) : (n.withRole r).Cut t := by
  obtain ⟨hsource, hchildren⟩ := h
  exact .mk hsource hchildren

theorem adopt {outer : Node} {between : List Node} (hn : n.Cut t) (hbetween : ∀ m ∈ between, m.Cut t)
    (houter : outer.Cut t) (size : Nat) : (n.adopt between outer size).Cut t := by
  obtain ⟨hsource, hchildren⟩ := hn
  obtain ⟨-, hsuffix⟩ := houter
  refine .mk hsource ?_
  rw [List.cons_append, List.forall_mem_cons, List.forall_mem_append]
  exact ⟨.mk hsource hchildren, hbetween, hsuffix⟩

end Node.Cut

theorem roleLast_cut {t : Text} {ns : List Node} (h : ∀ n ∈ ns, n.Cut t) (r : Role) :
    ∀ n ∈ roleLast r ns, n.Cut t := by
  induction ns with
  | nil => exact h
  | cons n ns ih =>
    obtain ⟨hn, hns⟩ := List.forall_mem_cons.1 h
    rw [roleLast]
    split
    · exact List.forall_mem_cons.2 ⟨hn.withRole r, hns⟩
    · exact List.forall_mem_cons.2 ⟨hn, ih hns⟩

theorem splitLast_eq {ns before : List Node} {n : Node} (h : splitLast ns = some (before, n)) :
    ns = before ++ [n] := by
  cases ns with
  | nil => cases h
  | cons m ns =>
    rw [splitLast] at h
    · obtain ⟨l, hl, e⟩ := Option.map_eq_some_iff.1 h
      obtain ⟨rfl, rfl⟩ := Prod.mk.inj e
      exact (List.dropLast_append_getLast? _ hl).symm
    · exact fun e => by cases e

theorem splitLast_cut {t : Text} {ns before : List Node} {n : Node} (hns : ∀ m ∈ ns, m.Cut t)
    (h : splitLast ns = some (before, n)) : (∀ m ∈ before, m.Cut t) ∧ n.Cut t := by
  rw [splitLast_eq h, List.forall_mem_append, List.forall_mem_singleton] at hns
  exact hns

/-! ## Steps -/

/-- A step leaves an ending of the text, and its nodes start at endings of it. -/
structure Step.Cut {s : Text} (x : Step s) : Prop where
  rest : x.rest <:+ s
  nodes : ∀ n ∈ x.nodes, n.Cut s

namespace Step.Cut

variable {s : Text}

theorem here (s : Text) : (Step.here s).Cut := ⟨List.suffix_refl s, fun _ h => absurd h List.not_mem_nil⟩

theorem skip {nodes : List Node} (hnodes : ∀ n ∈ nodes, n.Cut s) (n : Nat) {t : Text} (ht : t <:+ s) {size : Nat}
    (total : t.length + size = s.length) : (Step.skip nodes n t size total).Cut := by
  induction n generalizing t size with
  | zero => exact ⟨ht, hnodes⟩
  | succ n ih =>
    cases t with
    | nil => exact ⟨ht, hnodes⟩
    | cons c t => exact ih ((List.suffix_cons c t).trans ht) _

theorem andThen {a : Step s} (ha : a.Cut) {b : Step a.rest} (hb : b.Cut) : (a.andThen b).Cut :=
  ⟨hb.rest.trans ha.rest, List.forall_mem_append.2 ⟨ha.nodes, fun n hn => (hb.nodes n hn).suffix ha.rest⟩⟩

theorem wrap {x : Step s} (hx : x.Cut) (kind : List Node → Kind) : (x.wrap kind).Cut :=
  ⟨hx.rest, List.forall_mem_singleton.2 (.mk (List.suffix_refl s) hx.nodes)⟩

theorem withNodes {x : Step s} (hx : x.Cut) {nodes : List Node} (h : ∀ n ∈ nodes, n.Cut s) :
    Step.Cut { x with nodes } :=
  ⟨hx.rest, h⟩

end Step.Cut

theorem gapRead_cut {s : Text} (comments : List Node) (breaks : Bool) {t : Text} (size : Nat)
    (total : t.length + size = s.length) (ht : t <:+ s) (h : ∀ n ∈ comments, n.Cut s) :
    (Gap.read comments breaks t size total).step.Cut := by
  have hreverse : ∀ {ns : List Node}, (∀ n ∈ ns, n.Cut s) → ∀ n ∈ ns.reverse, n.Cut s :=
    fun h n hn => h n (List.mem_reverse.1 hn)
  fun_induction Gap.read comments breaks t size total with
  | case1 => exact ⟨ht, hreverse h⟩
  | case2 =>
    rename_i c r _ _ _ ih
    exact ih ((List.suffix_cons c r).trans ht) h
  | case3 =>
    rename_i c r _ _ n after _ _ hcomment hl ih
    simp only [hcomment]
    rw [dif_pos hl]
    refine ih ?_ (List.forall_mem_cons.2 ⟨.mk ht fun _ h => absurd h List.not_mem_nil, h⟩)
    exact (Step.Cut.skip (fun _ h => absurd h List.not_mem_nil) n ((List.suffix_cons c r).trans ht) _).rest
  | case4 =>
    rename_i after _ hcomment hl
    simp only [hcomment]
    rw [dif_neg hl]
    exact ⟨ht, hreverse h⟩
  | case5 =>
    rename_i hcomment
    split
    · exact (hcomment _ ‹_›).elim
    · exact ⟨ht, hreverse h⟩

theorem gap_cut (s : Text) : (gap s).step.Cut :=
  gapRead_cut [] false 0 _ (List.suffix_refl s) fun _ h => absurd h List.not_mem_nil

/-! ## Runs -/

namespace Grammar

variable {ρ : Type} (g : Grammar ρ)

mutual

theorem run_cut {mode : Mode} {bound : Nat} {e : Peg ρ} {s : Text} {x : Step s} (h : run g mode bound e s = some x) :
    x.Cut := by
  match e, h with
  | .empty, h =>
    rw [run] at h
    cases h
    exact .here s
  | .gap, h =>
    rw [run] at h
    cases h
    exact gap_cut s
  | .lexeme scan, h =>
    rw [run] at h
    obtain ⟨n, -, rfl⟩ := Option.map_eq_some_iff.1 h
    exact .skip (gap_cut s).nodes n (gap_cut s).rest _
  | .leaf kind scan, h =>
    rw [run] at h
    obtain ⟨n, -, rfl⟩ := Option.map_eq_some_iff.1 h
    refine .skip (List.forall_mem_append.2 ⟨(gap_cut s).nodes, List.forall_mem_singleton.2 ?_⟩) n (gap_cut s).rest _
    exact .mk (gap_cut s).rest fun _ hn => absurd hn List.not_mem_nil
  | .raw scan, h =>
    rw [run] at h
    obtain ⟨n, -, rfl⟩ := Option.map_eq_some_iff.1 h
    exact .skip (fun _ hn => absurd hn List.not_mem_nil) n (List.suffix_refl s) _
  | .call r, h =>
    rw [run] at h
    split at h
    · exact run_cut h
    · cases h
  | .seq a b, h =>
    rw [run] at h
    split at h
    · cases h
    · rename_i x hx
      split at h
      · obtain ⟨y, hy, rfl⟩ := Option.map_eq_some_iff.1 h
        exact (run_cut hx).andThen (run_cut hy)
      · obtain ⟨y, hy, rfl⟩ := Option.map_eq_some_iff.1 h
        exact (run_cut hx).andThen (run_cut hy)
  | .alt a b, h =>
    rw [run] at h
    split at h
    · cases h
      exact run_cut ‹_›
    · exact run_cut h
  | .many a, h =>
    rw [run] at h
    cases h
    exact repeated_cut (fun _ hn => absurd hn List.not_mem_nil) (.here s)
  | .node kind body, h =>
    rw [run] at h
    obtain ⟨y, hy, rfl⟩ := Option.map_eq_some_iff.1 h
    exact (run_cut hy).wrap kind
  | .role r body, h =>
    rw [run] at h
    obtain ⟨y, hy, rfl⟩ := Option.map_eq_some_iff.1 h
    exact (run_cut hy).withNodes (roleLast_cut (run_cut hy).nodes r)
  | .fold base suffix, h =>
    rw [run] at h
    split at h
    · cases h
    · rename_i x hx
      have hbase := run_cut hx
      split at h
      · cases h
        exact hbase
      · rename_i before n hsplit
        obtain ⟨hbefore, hn⟩ := splitLast_cut hbase.nodes hsplit
        split at h
        · cases h
          exact grown_cut hbefore hn hbase
        · cases h
          exact grown_cut hbefore hn hbase
  | .check ok body, h =>
    rw [run] at h
    exact run_cut (Option.filter_eq_some_iff.1 h).1
  | .unless stop a b, h =>
    rw [run] at h
    split at h
    · cases h
    · rename_i x hx
      split at h
      · cases h
        exact run_cut hx
      · split at h
        · obtain ⟨y, hy, rfl⟩ := Option.map_eq_some_iff.1 h
          exact (run_cut hx).andThen (run_cut hy)
        · obtain ⟨y, hy, rfl⟩ := Option.map_eq_some_iff.1 h
          exact (run_cut hx).andThen (run_cut hy)
  | .ahead a, h =>
    rw [run] at h
    obtain ⟨y, -, rfl⟩ := Option.map_eq_some_iff.1 h
    exact .here s
  | .absent a, h =>
    rw [run] at h
    split at h <;> cases h
    exact .here s
  | .sameLine, h | .newLine, h | .only _, h =>
    rw [run] at h
    split at h <;> cases h
    exact .here s
  | .within f body, h =>
    rw [run] at h
    exact run_cut h
termination_by (s.length, bound, sizeOf e, 0)
decreasing_by
  all_goals apply measure_lt
  all_goals simp only [Peg.alt.sizeOf_spec, Peg.seq.sizeOf_spec, Peg.many.sizeOf_spec, Peg.node.sizeOf_spec,
    Peg.role.sizeOf_spec, Peg.fold.sizeOf_spec, Peg.check.sizeOf_spec, Peg.unless.sizeOf_spec, Peg.within.sizeOf_spec,
    Step.here, true_and, Nat.lt_irrefl, false_or]
  all_goals first
    | omega
    | (have total := Step.total ‹Step s›; omega)

theorem repeated_cut {mode : Mode} {bound : Nat} {a : Peg ρ} {s : Text} {acc : List Node} {x : Step s}
    (hacc : ∀ n ∈ acc, n.Cut s) (hx : x.Cut) : (repeated g mode bound a acc x).Cut := by
  have hdone : ∀ n ∈ acc.reverse, n.Cut s := fun n hn => hacc n (List.mem_reverse.1 hn)
  rw [repeated]
  split
  · exact hx.withNodes hdone
  · rename_i y hy
    split
    · exact hx.withNodes hdone
    · have hread := run_cut hy
      refine repeated_cut ?_ ((hx.withNodes fun _ hn => absurd hn List.not_mem_nil).andThen hread)
      refine List.forall_mem_append.2 ⟨fun n hn => ?_, hacc⟩
      exact (hread.nodes n (List.mem_reverse.1 hn)).suffix hx.rest
termination_by (x.rest.length, bound, sizeOf a, 1)
decreasing_by
  all_goals apply measure_lt
  · omega
  · have := Step.total ‹Step x.rest›; simp only [Step.andThen]; omega

theorem grown_cut {mode : Mode} {bound : Nat} {suffix : Peg ρ} {s : Text} {before : List Node} {n : Node}
    {x : Step s} (hbefore : ∀ m ∈ before, m.Cut s) (hn : n.Cut s) (hx : x.Cut) :
    (grown g mode bound suffix before n x).Cut := by
  have hdone : ∀ m ∈ before ++ [n], m.Cut s :=
    List.forall_mem_append.2 ⟨hbefore, List.forall_mem_singleton.2 hn⟩
  rw [grown]
  split
  · exact hx.withNodes hdone
  · rename_i y hy
    split
    · exact hx.withNodes hdone
    · rename_i between outer hsplit
      split
      · exact hx.withNodes hdone
      · have hread := run_cut hy
        have hnodes : ∀ m ∈ y.nodes, m.Cut s := fun m hm => (hread.nodes m hm).suffix hx.rest
        obtain ⟨hbetween, houter⟩ := splitLast_cut hnodes hsplit
        exact grown_cut hbefore (hn.adopt hbetween houter _) (hx.andThen hread)
termination_by (x.rest.length, bound, sizeOf suffix, 1)
decreasing_by
  all_goals apply measure_lt
  · omega
  · have := Step.total ‹Step x.rest›; simp only [Step.andThen]; omega

end

end Grammar

/-! ## Trees of texts -/

theorem parse_cut {elements : Bool} {t : Text} {root : Node} (h : parse elements t = some root) : root.Cut t := by
  obtain ⟨x, hx, hroot⟩ := Option.bind_eq_some_iff.1 h
  exact (grammar.run_cut hx).nodes root (List.mem_of_mem_head? hroot)

/-- The nodes of the trees are pieces of the source. -/
def Parser.Faithful (parser : Parser) : Prop :=
  ∀ (elements : Bool) (t : Text) (root : Node), parser elements t = some root → root.Cut t

theorem parse_faithful : Parser.Faithful parse := fun _ _ _ h => parse_cut h

theorem walk_cut {t : Text} {stack : List Node} (h : ∀ n ∈ stack, n.Cut t) : ∀ n ∈ Node.walk stack, n.Cut t := by
  fun_induction Node.walk stack with
  | case1 => exact h
  | case2 n ns ih =>
    obtain ⟨hn, hns⟩ := List.forall_mem_cons.1 h
    exact List.forall_mem_cons.2 ⟨hn, ih (List.forall_mem_append.2 ⟨hn.child, hns⟩)⟩

end MessageCatalog.TypeScript
