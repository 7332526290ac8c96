/-
  MessageCatalog.Proofs.TypeScript.Within — running the grammar to a bounded depth.

  A run ends because each call ranks lower or stands further on, which a proof can use but
  an evaluation cannot. With a bound on the depth of calls the same steps can be evaluated;
  a run that keeps to the bound is the run itself, whatever the bound was.

  Proved: what is parsed within a bound is what is parsed (`parse_within`), so what holds
  of the one tree holds of the other (`parse_satisfies`).
-/

import MessageCatalog.TypeScript.Parse

namespace MessageCatalog.TypeScript

namespace Grammar

variable {ρ : Type}

mutual

/-- Like `run`, with a bound on the depth of calls: nothing if that is not enough. -/
def runWithin (g : Grammar ρ) (fuel : Nat) (mode : Mode) (bound : Nat) (e : Peg ρ) (s : Text) :
    Option (Option (Step s)) :=
  match fuel with
  | 0 => none
  | fuel + 1 =>
    match e with
    | .empty => some (some (.here s))
    | .lexeme scan =>
      let before := (gap s).step
      some ((scan before.rest).map fun n => .skip before.nodes n before.rest before.size before.total)
    | .leaf kind scan =>
      let before := (gap s).step
      some ((scan before.rest).map fun n =>
        .skip (before.nodes ++ [.mk kind none ⟨before.rest, n⟩ []]) n before.rest before.size before.total)
    | .raw scan => some ((scan s).map fun n => .skip [] n s 0 rfl)
    | .call r => if g.rank r < bound then runWithin g fuel mode (g.rank r) (g.rule r) s else some none
    | .seq a b =>
      match runWithin g fuel mode bound a s with
      | none => none
      | some none => some none
      | some (some x) =>
        (runWithin g fuel mode (if x.size = 0 then bound else g.top) b x.rest).map fun y => y.map x.andThen
    | .alt a b =>
      match runWithin g fuel mode bound a s with
      | none => none
      | some (some x) => some (some x)
      | some none => runWithin g fuel mode bound b s
    | .many a => (repeatedWithin g fuel mode bound a [] (.here s)).map some
    | .gap => some (some (gap s).step)
    | .node kind body => (runWithin g fuel mode bound body s).map fun y => y.map fun x => x.wrap kind
    | .role r body =>
      (runWithin g fuel mode bound body s).map fun y => y.map fun x => { x with nodes := roleLast r x.nodes }
    | .fold base suffix =>
      match runWithin g fuel mode bound base s with
      | none => none
      | some none => some none
      | some (some x) =>
        match splitLast x.nodes with
        | none => some (some x)
        | some (before, n) =>
          (grownWithin g fuel mode (if x.size = 0 then bound else g.top) suffix before n x).map some
    | .check ok body => (runWithin g fuel mode bound body s).map fun y => y.filter fun x => ok x.nodes
    | .unless stop a b =>
      match runWithin g fuel mode bound a s with
      | none => none
      | some none => some none
      | some (some x) =>
        if stop x.nodes then some (some x)
        else (runWithin g fuel mode (if x.size = 0 then bound else g.top) b x.rest).map fun y => y.map x.andThen
    | .ahead a => (runWithin g fuel mode bound a s).map fun y => y.map fun _ => .here s
    | .absent a => (runWithin g fuel mode bound a s).map fun y => if y.isSome then none else some (.here s)
    | .sameLine => some (if (gap s).breaks then none else some (.here s))
    | .newLine => some (if (gap s).breaks then some (.here s) else none)
    | .only p => some (if p mode then some (.here s) else none)
    | .within f body => runWithin g fuel (f mode) bound body s

def repeatedWithin (g : Grammar ρ) (fuel : Nat) (mode : Mode) (bound : Nat) (a : Peg ρ) {s : Text}
    (acc : List Node) (x : Step s) : Option (Step s) :=
  match fuel with
  | 0 => none
  | fuel + 1 =>
    match runWithin g fuel mode bound a x.rest with
    | none => none
    | some none => some { x with nodes := acc.reverse }
    | some (some y) =>
      if y.size = 0 then some { x with nodes := acc.reverse }
      else repeatedWithin g fuel mode g.top a (y.nodes.reverse ++ acc) ({ x with nodes := [] }.andThen y)

def grownWithin (g : Grammar ρ) (fuel : Nat) (mode : Mode) (bound : Nat) (suffix : Peg ρ) {s : Text}
    (before : List Node) (n : Node) (x : Step s) : Option (Step s) :=
  match fuel with
  | 0 => none
  | fuel + 1 =>
    match runWithin g fuel mode bound suffix x.rest with
    | none => none
    | some none => some { x with nodes := before ++ [n] }
    | some (some y) =>
      match splitLast y.nodes with
      | none => some { x with nodes := before ++ [n] }
      | some (between, outer) =>
        if y.size = 0 then some { x with nodes := before ++ [n] }
        else grownWithin g fuel mode g.top suffix before (n.adopt between outer (n.span.size + y.size)) (x.andThen y)

end

section

variable (g : Grammar ρ)

/-- What has been read decides how high the next call may rank. -/
theorem run_next {s : Text} (mode : Mode) (bound : Nat) (b : Peg ρ) (x : Step s) :
    (if _h : x.size = 0 then (run g mode bound b x.rest).map x.andThen
      else (run g mode g.top b x.rest).map x.andThen) =
      (run g mode (if x.size = 0 then bound else g.top) b x.rest).map x.andThen := by
  split <;> rfl

structure Agrees (fuel : Nat) : Prop where
  run : ∀ mode bound e s y, runWithin g fuel mode bound e s = some y → run g mode bound e s = y
  repeated : ∀ mode bound a {s : Text} acc (x y : Step s),
    repeatedWithin g fuel mode bound a acc x = some y → repeated g mode bound a acc x = y
  grown : ∀ mode bound suffix {s : Text} before n (x y : Step s),
    grownWithin g fuel mode bound suffix before n x = some y → grown g mode bound suffix before n x = y

theorem run_succ {fuel : Nat} (ih : Agrees g fuel) (mode : Mode) (bound : Nat) (e : Peg ρ) (s : Text)
    (y : Option (Step s)) (h : runWithin g (fuel + 1) mode bound e s = some y) : run g mode bound e s = y := by
  cases e with
  | empty | gap | lexeme | leaf | raw | sameLine | newLine | only =>
    rw [runWithin] at h
    rw [Grammar.run]
    exact Option.some.inj h
  | call r =>
    rw [runWithin] at h
    rw [Grammar.run]
    split at h
    · rename_i hrank
      rw [dif_pos hrank]
      exact ih.run _ _ _ _ _ h
    · rename_i hrank
      rw [dif_neg hrank]
      exact Option.some.inj h
  | within f body =>
    rw [runWithin] at h
    rw [Grammar.run]
    exact ih.run _ _ _ _ _ h
  | node _ body | role _ body | check _ body | ahead body | absent body =>
    rw [runWithin] at h
    obtain ⟨z, hz, rfl⟩ := Option.map_eq_some_iff.1 h
    rw [Grammar.run, ih.run _ _ _ _ _ hz]
  | many a =>
    rw [runWithin] at h
    obtain ⟨z, hz, rfl⟩ := Option.map_eq_some_iff.1 h
    rw [Grammar.run, ih.repeated _ _ _ _ _ _ hz]
  | alt a b =>
    rw [runWithin] at h
    rw [Grammar.run]
    split at h
    · cases h
    · rename_i ha
      rw [ih.run _ _ _ _ _ ha]
      exact Option.some.inj h
    · rename_i ha
      rw [ih.run _ _ _ _ _ ha]
      exact ih.run _ _ _ _ _ h
  | seq a b =>
    rw [runWithin] at h
    rw [Grammar.run]
    split at h
    · cases h
    · rename_i ha
      rw [ih.run _ _ _ _ _ ha]
      exact Option.some.inj h
    · rename_i ha
      obtain ⟨z, hz, rfl⟩ := Option.map_eq_some_iff.1 h
      rw [ih.run _ _ _ _ _ ha]
      simp only [run_next, ih.run _ _ _ _ _ hz]
  | «unless» stop a b =>
    rw [runWithin] at h
    rw [Grammar.run]
    split at h
    · cases h
    · rename_i ha
      rw [ih.run _ _ _ _ _ ha]
      exact Option.some.inj h
    · rename_i x ha
      rw [ih.run _ _ _ _ _ ha]
      simp only
      split at h
      · rename_i hstop
        rw [if_pos hstop]
        exact Option.some.inj h
      · rename_i hstop
        obtain ⟨z, hz, rfl⟩ := Option.map_eq_some_iff.1 h
        rw [if_neg hstop, run_next, ih.run _ _ _ _ _ hz]
  | fold base suffix =>
    rw [runWithin] at h
    rw [Grammar.run]
    split at h
    · cases h
    · rename_i hbase
      rw [ih.run _ _ _ _ _ hbase]
      exact Option.some.inj h
    · rename_i x hbase
      rw [ih.run _ _ _ _ _ hbase]
      cases hsplit : splitLast x.nodes with
      | none =>
        simp only [hsplit] at h ⊢
        exact Option.some.inj h
      | some last =>
        simp only [hsplit] at h ⊢
        obtain ⟨z, hz, rfl⟩ := Option.map_eq_some_iff.1 h
        rw [← ih.grown _ _ _ _ _ _ _ hz]
        split <;> rfl

theorem repeated_succ {fuel : Nat} (ih : Agrees g fuel) (mode : Mode) (bound : Nat) (a : Peg ρ) {s : Text}
    (acc : List Node) (x y : Step s) (h : repeatedWithin g (fuel + 1) mode bound a acc x = some y) :
    repeated g mode bound a acc x = y := by
  rw [repeatedWithin] at h
  rw [Grammar.repeated]
  split at h
  · cases h
  · rename_i ha
    rw [ih.run _ _ _ _ _ ha]
    exact Option.some.inj h
  · rename_i ha
    rw [ih.run _ _ _ _ _ ha]
    simp only
    split at h
    · rename_i hsize
      rw [dif_pos hsize]
      exact Option.some.inj h
    · rename_i hsize
      rw [dif_neg hsize]
      exact ih.repeated _ _ _ _ _ _ h

theorem grown_succ {fuel : Nat} (ih : Agrees g fuel) (mode : Mode) (bound : Nat) (suffix : Peg ρ) {s : Text}
    (before : List Node) (n : Node) (x y : Step s)
    (h : grownWithin g (fuel + 1) mode bound suffix before n x = some y) :
    grown g mode bound suffix before n x = y := by
  rw [grownWithin] at h
  rw [Grammar.grown]
  split at h
  · cases h
  · rename_i ha
    rw [ih.run _ _ _ _ _ ha]
    exact Option.some.inj h
  · rename_i z ha
    rw [ih.run _ _ _ _ _ ha]
    cases hsplit : splitLast z.nodes with
    | none =>
      simp only [hsplit] at h ⊢
      exact Option.some.inj h
    | some last =>
      simp only [hsplit] at h ⊢
      split at h
      · rename_i hsize
        rw [dif_pos hsize]
        exact Option.some.inj h
      · rename_i hsize
        rw [dif_neg hsize]
        exact ih.grown _ _ _ _ _ _ _ h

theorem agrees (fuel : Nat) : Agrees g fuel := by
  induction fuel with
  | zero =>
    refine ⟨?_, ?_, ?_⟩
    · intro _ _ _ _ _ h
      rw [runWithin] at h
      cases h
    · intro _ _ _ _ _ _ _ h
      rw [repeatedWithin] at h
      cases h
    · intro _ _ _ _ _ _ _ _ h
      rw [grownWithin] at h
      cases h
  | succ fuel ih => exact ⟨run_succ g ih, repeated_succ g ih, grown_succ g ih⟩

end

end Grammar

def parseWithin (fuel : Nat) (elements : Bool) (t : Text) : Option (Option Node) :=
  (grammar.runWithin fuel { elements } grammar.top (.call .program) t).map fun s => s.bind fun s => s.nodes.head?

theorem parse_within {fuel : Nat} {elements : Bool} {t : Text} {tree : Option Node}
    (h : parseWithin fuel elements t = some tree) : parse elements t = tree := by
  obtain ⟨s, hs, rfl⟩ := Option.map_eq_some_iff.1 h
  rw [parse, (grammar.agrees fuel).run _ _ _ _ _ hs]

theorem parse_satisfies (fuel : Nat) {elements : Bool} {t : Text} (p : Node → Prop) [DecidablePred p]
    (h : (parseWithin fuel elements t).join.any (fun root => decide (p root)) = true) :
    ∃ root, parse elements t = some root ∧ p root := by
  cases hparsed : parseWithin fuel elements t with
  | none =>
    rw [hparsed] at h
    cases h
  | some tree =>
    rw [hparsed] at h
    obtain ⟨root, hroot, hp⟩ := (Option.any_eq_true _ _).1 h
    exact ⟨root, (parse_within hparsed).trans hroot, of_decide_eq_true hp⟩

end MessageCatalog.TypeScript
