/-
  MessageCatalog.TypeScript.Grammar — parsing expressions that build nodes, and running them.

  Choice is ordered and repetition greedy. A rule may call another at the same place in
  the text only if that one ranks lower; once something has been read any rule may be
  called. So every run ends, without a bound on its length.
-/

import MessageCatalog.TypeScript.Node
import MessageCatalog.TypeScript.Token

namespace MessageCatalog.TypeScript

structure Mode where
  /-- Elements are; type assertions in angle brackets are not. -/
  elements : Bool
  /-- Between the question mark and the colon of a conditional, brackets aside. -/
  ternary : Bool := false
  deriving Repr

inductive Peg (ρ : Type) where
  | empty
  /-- White space and comments, which are nodes. -/
  | gap
  /-- White space and comments, then a token. -/
  | lexeme (scan : Scanner)
  /-- The same with a node for the token. -/
  | leaf (kind : Kind) (scan : Scanner)
  /-- A token right here. -/
  | raw (scan : Scanner)
  | call (r : ρ)
  | seq (a b : Peg ρ)
  | alt (a b : Peg ρ)
  | many (a : Peg ρ)
  /-- A node around what the body reads; its kind may depend on its children. -/
  | node (kind : List Node → Kind) (body : Peg ρ)
  /-- A role for the last node of the body, comments aside. -/
  | role (r : Role) (body : Peg ρ)
  /-- The last node of the base, taken into the node of each suffix as its first child. -/
  | fold (base suffix : Peg ρ)
  | check (ok : List Node → Bool) (body : Peg ρ)
  /-- The second part follows only where the nodes of the first pass the test. -/
  | unless (stop : List Node → Bool) (a b : Peg ρ)
  | ahead (a : Peg ρ)
  | absent (a : Peg ρ)
  /-- The next token is on this line, or on a later one. -/
  | sameLine
  | newLine
  | only (p : Mode → Bool)
  | within (f : Mode → Mode) (body : Peg ρ)

structure Grammar (ρ : Type) where
  rule : ρ → Peg ρ
  rank : ρ → Nat
  /-- Above every rank. -/
  top : Nat

structure Step (s : Text) where
  nodes : List Node
  rest : Text
  size : Nat
  total : rest.length + size = s.length

namespace Step

def here (s : Text) : Step s := ⟨[], s, 0, by simp⟩

theorem total_tail {s t : Text} {c : Code} {size : Nat} (h : (c :: t).length + size = s.length) :
    t.length + (size + 1) = s.length := by
  rw [List.length_cons] at h
  omega

/-- After `n` more code points, or as many as there are. -/
def skip {s : Text} (nodes : List Node) : (n : Nat) → (t : Text) → (size : Nat) → t.length + size = s.length → Step s
  | 0, t, size, h => ⟨nodes, t, size, h⟩
  | _ + 1, [], size, h => ⟨nodes, [], size, h⟩
  | n + 1, _ :: t, size, h => skip nodes n t (size + 1) (total_tail h)

/-- One step after another. -/
def andThen {s : Text} (a : Step s) (b : Step a.rest) : Step s :=
  ⟨a.nodes ++ b.nodes, b.rest, a.size + b.size, by have := a.total; have := b.total; omega⟩

end Step

structure Gap (s : Text) where
  step : Step s
  /-- A line ends in it. -/
  breaks : Bool

/-- `comments` are those found so far, last first. -/
def Gap.read {s : Text} (comments : List Node) (breaks : Bool) (t : Text) (size : Nat)
    (h : t.length + size = s.length) : Gap s :=
  match ht : t with
  | [] => ⟨⟨comments.reverse, t, size, by simp [ht]; simpa using h⟩, breaks⟩
  | c :: r =>
    if Token.isBlank c then Gap.read comments (breaks || Token.isLineBreak c) r (size + 1) (Step.total_tail h)
    else
      match Token.comment t with
      | some (n + 1) =>
        let after := Step.skip (s := s) [] n r (size + 1) (Step.total_tail h)
        if _hl : after.rest.length < t.length then
          let broken := (r.take n).any Token.isLineBreak
          Gap.read (.mk .comment none ⟨t, n + 1⟩ [] :: comments) (breaks || broken) after.rest after.size after.total
        else ⟨⟨comments.reverse, c :: r, size, h⟩, breaks⟩
      | _ => ⟨⟨comments.reverse, c :: r, size, h⟩, breaks⟩
termination_by t.length
decreasing_by
  · simp
  · simpa [ht] using _hl

def gap (s : Text) : Gap s := Gap.read [] false s 0 (by simp)

/-- The role of a base in the node of a suffix. -/
def Kind.baseRole : Kind → Option Role
  | .call => some .function
  | .member => some .object
  | .genericType => some .name
  | _ => none

/-- The suffix `n` with the base in front of its children. `between` stands between the
two; `size` is the length from the start of the base to the end of the suffix. -/
def Node.adopt (base : Node) (between : List Node) (n : Node) (size : Nat) : Node :=
  match base, n with
  | .mk k r s cs, .mk k' r' _ cs' => .mk k' r' ⟨s.source, size⟩ (.mk k (k'.baseRole <|> r) s cs :: between ++ cs')

def splitLast : List Node → Option (List Node × Node)
  | [] => none
  | ns => (ns.getLast?).map fun n => (ns.dropLast, n)

/-- The last node that is not a comment, in a role. -/
def roleLast (r : Role) : List Node → List Node
  | [] => []
  | n :: ns => if n.kind != .comment && ns.all (·.kind == .comment) then n.withRole r :: ns else n :: roleLast r ns

def Step.wrap {s : Text} (kind : List Node → Kind) (x : Step s) : Step s :=
  { x with nodes := [.mk (kind x.nodes) none ⟨s, x.size⟩ x.nodes] }

namespace Grammar

variable {ρ : Type}

theorem measure_lt {a a' b b' c c' d d' : Nat}
    (h : a < a' ∨ a = a' ∧ (b < b' ∨ b = b' ∧ (c < c' ∨ c = c' ∧ d < d'))) :
    Prod.Lex (· < ·) (Prod.Lex (· < ·) (Prod.Lex (· < ·) (· < ·))) (a, b, c, d) (a', b', c', d') := by
  rcases h with h | ⟨rfl, h | ⟨rfl, h | ⟨rfl, h⟩⟩⟩
  · exact .left _ _ h
  · exact .right _ (.left _ _ h)
  · exact .right _ (.right _ (.left _ _ h))
  · exact .right _ (.right _ (.right _ h))

mutual

/-- What `e` reads at the front of `s`. Before anything is read, only rules ranked below
`bound` may be called. -/
def run (g : Grammar ρ) (mode : Mode) (bound : Nat) (e : Peg ρ) (s : Text) : Option (Step s) :=
  match e with
  | .empty => some (.here s)
  | .lexeme scan =>
    let before := (gap s).step
    (scan before.rest).map fun n => .skip before.nodes n before.rest before.size before.total
  | .leaf kind scan =>
    let before := (gap s).step
    (scan before.rest).map fun n =>
      .skip (before.nodes ++ [.mk kind none ⟨before.rest, n⟩ []]) n before.rest before.size before.total
  | .raw scan => (scan s).map fun n => .skip [] n s 0 (by simp)
  | .call r => if _h : g.rank r < bound then run g mode (g.rank r) (g.rule r) s else none
  | .seq a b =>
    match run g mode bound a s with
    | none => none
    | some x =>
      if _h : x.size = 0 then (run g mode bound b x.rest).map x.andThen
      else (run g mode g.top b x.rest).map x.andThen
  | .alt a b =>
    match run g mode bound a s with
    | some x => some x
    | none => run g mode bound b s
  | .many a => some (repeated g mode bound a [] (.here s))
  | .gap => some (gap s).step
  | .node kind body => (run g mode bound body s).map fun x => x.wrap kind
  | .role r body => (run g mode bound body s).map fun x => { x with nodes := roleLast r x.nodes }
  | .fold base suffix =>
    match run g mode bound base s with
    | none => none
    | some x =>
      match splitLast x.nodes with
      | none => some x
      | some (before, n) =>
        if _h : x.size = 0 then some (grown g mode bound suffix before n x)
        else some (grown g mode g.top suffix before n x)
  | .check ok body => (run g mode bound body s).filter fun x => ok x.nodes
  | .unless stop a b =>
    match run g mode bound a s with
    | none => none
    | some x =>
      if stop x.nodes then some x
      else if _h : x.size = 0 then (run g mode bound b x.rest).map x.andThen
      else (run g mode g.top b x.rest).map x.andThen
  | .ahead a => (run g mode bound a s).map fun _ => .here s
  | .absent a => if (run g mode bound a s).isSome then none else some (.here s)
  | .sameLine => if (gap s).breaks then none else some (.here s)
  | .newLine => if (gap s).breaks then some (.here s) else none
  | .only p => if p mode then some (.here s) else none
  | .within f body => run g (f mode) bound body s
termination_by (s.length, bound, sizeOf e, 0)
decreasing_by
  all_goals apply measure_lt
  all_goals simp only [Peg.alt.sizeOf_spec, Peg.seq.sizeOf_spec, Peg.many.sizeOf_spec, Peg.node.sizeOf_spec,
    Peg.role.sizeOf_spec, Peg.fold.sizeOf_spec, Peg.check.sizeOf_spec, Peg.unless.sizeOf_spec, Peg.ahead.sizeOf_spec,
    Peg.absent.sizeOf_spec, Peg.within.sizeOf_spec, Step.here, true_and, Nat.lt_irrefl, false_or]
  all_goals first
    | omega
    | (have total := Step.total ‹Step s›; omega)

/-- As many as there are. `acc` holds the nodes so far, last first. -/
def repeated (g : Grammar ρ) (mode : Mode) (bound : Nat) (a : Peg ρ) {s : Text} (acc : List Node) (x : Step s) :
    Step s :=
  match run g mode bound a x.rest with
  | none => { x with nodes := acc.reverse }
  | some y =>
    if _h : y.size = 0 then { x with nodes := acc.reverse }
    else repeated g mode g.top a (y.nodes.reverse ++ acc) ({ x with nodes := [] }.andThen y)
termination_by (x.rest.length, bound, sizeOf a, 1)
decreasing_by
  all_goals apply measure_lt
  · omega
  · have := y.total; simp only [Step.andThen]; omega

def grown (g : Grammar ρ) (mode : Mode) (bound : Nat) (suffix : Peg ρ) {s : Text} (before : List Node) (n : Node)
    (x : Step s) : Step s :=
  match run g mode bound suffix x.rest with
  | none => { x with nodes := before ++ [n] }
  | some y =>
    match splitLast y.nodes with
    | none => { x with nodes := before ++ [n] }
    | some (between, outer) =>
      if _h : y.size = 0 then { x with nodes := before ++ [n] }
      else grown g mode g.top suffix before (n.adopt between outer (n.span.size + y.size)) (x.andThen y)
termination_by (x.rest.length, bound, sizeOf suffix, 1)
decreasing_by
  all_goals apply measure_lt
  · omega
  · have := y.total; simp only [Step.andThen]; omega

end

end Grammar

end MessageCatalog.TypeScript
