/-
  MessageCatalog.Proofs.Json.RoundTrip — reading what was written.

  A value is delivered to what is open around it after exactly its own tokens, so reading
  goes by recursion on the value, whatever is on the stack. The stack is as high as the
  value is nested, so the host allows for reading what it allows for writing.

  Proved: reading what was written gives the value as it is spelled (`read_write`): tuples
  as lists, keys as texts, and of the members with equal names the last in the place of
  the first.
-/

import MessageCatalog.Json.Read
import MessageCatalog.Proofs.Json.Tokens

namespace MessageCatalog.Json

mutual

def again : Data → Data
  | .list xs | .tuple xs => .list (itemsAgain xs)
  | .mapping ps => .ofPairs (pairsAgain ps)
  | d => d

def itemsAgain : List Data → List Data
  | [] => []
  | x :: xs => again x :: itemsAgain xs

def pairsAgain : List (Data × Data) → List (Data × Data)
  | [] => []
  | (k, v) :: ps => (.text ((keyText? k).getD []), again v) :: pairsAgain ps

end

/-! ## Steps -/

namespace Reader

variable {r : Reader}

/-- A value may follow, and there is a place for it. -/
def Ready (r : Reader) : Prop := r.wantsValue = true ∧ ∀ members s, r.stack ≠ .object members none :: s

theorem deliver_next (h : r.Ready) (next : Next) (d : Data) : { r with next }.deliver d = r.deliver d := by
  obtain ⟨stack, n, result⟩ := r
  match stack with
  | [] | .array _ :: _ | .object _ (some _) :: _ => rfl
  | .object members none :: s => exact absurd rfl (h.2 members s)

theorem deliver_array (items : List Data) (next : Next) (d : Data) :
    (r.openWith (.array items) next).deliver d = r.openWith (.array (d :: items)) .commaOrClose := rfl

theorem deliver_object (members : List (Data × Data)) (k : Text) (next : Next) (d : Data) :
    (r.openWith (.object members (some k)) next).deliver d =
      r.openWith (.object ((.text k, d) :: members) none) .commaOrClose := rfl

theorem step_literal (h : r.Ready) (d : Data) : r.step (.literal d) = some (r.deliver d) := by
  simp [step, h.1]

theorem step_quoted (h : r.Ready) (t : Text) : r.step (.quoted t) = some (r.deliver (.text t)) := by
  have hn : r.next = .value ∨ r.next = .valueOrClose := by simpa [wantsValue] using h.1
  rcases hn with hn | hn <;> simp [step, hn, h.1]

theorem step_openArray (h : r.Ready) : r.step .openArray = some (r.openWith (.array []) .valueOrClose) := by
  simp [step, h.1]

theorem step_openObject (h : r.Ready) :
    r.step .openObject = some (r.openWith (.object [] none) .nameOrClose) := by
  simp [step, h.1]

theorem step_closeArray (h : r.Ready) {next : Next} (hn : next = .valueOrClose ∨ next = .commaOrClose)
    (items : List Data) :
    (r.openWith (.array items) next).step .closeArray = some (r.deliver (.list items.reverse)) := by
  rcases hn with rfl | rfl <;> exact congrArg some (deliver_next h _ _)

theorem step_closeObject (h : r.Ready) {next : Next} (hn : next = .nameOrClose ∨ next = .commaOrClose)
    (members : List (Data × Data)) :
    (r.openWith (.object members none) next).step .closeObject = some (r.deliver (.ofPairs members.reverse)) := by
  rcases hn with rfl | rfl <;> exact congrArg some (deliver_next h _ _)

theorem step_name {next : Next} (hn : next = .name ∨ next = .nameOrClose) (members : List (Data × Data))
    (k : Text) :
    (r.openWith (.object members none) next).step (.quoted k) =
      some (r.openWith (.object members (some k)) .colon) := by
  rcases hn with rfl | rfl <;> rfl

theorem step_colon (members : List (Data × Data)) (k : Text) :
    (r.openWith (.object members (some k)) .colon).step .colon =
      some (r.openWith (.object members (some k)) .value) := rfl

theorem step_comma_array (items : List Data) :
    (r.openWith (.array items) .commaOrClose).step .comma = some (r.openWith (.array items) .value) := rfl

theorem step_comma_object (members : List (Data × Data)) :
    (r.openWith (.object members none) .commaOrClose).step .comma =
      some (r.openWith (.object members none) .name) :=
  rfl

theorem ready_array {next : Next} (hn : next = .value ∨ next = .valueOrClose) (items : List Data) :
    (r.openWith (.array items) next).Ready := by
  refine ⟨?_, fun members s e => ?_⟩
  · rcases hn with rfl | rfl <;> rfl
  · cases e

theorem ready_object (members : List (Data × Data)) (k : Text) :
    (r.openWith (.object members (some k)) .value).Ready := by
  refine ⟨rfl, fun members s e => ?_⟩
  cases e

end Reader

/-! ## On a host -/

variable {host : Host} {r r' : Reader} {t : Token}

theorem stepOn_eq (h : r.step t = some r') (hexcess : r'.excess? host t = none) : r.stepOn host t = .ok r' := by
  simp only [Reader.stepOn, h, hexcess]

theorem excess_open (h : r.stack.length ≤ host.room) (o : Open) (next : Next) :
    (r.openWith o next).excess? host .openArray = none ∧ (r.openWith o next).excess? host .openObject = none := by
  have hlen : (r.openWith o next).stack.length ≤ host.room + 1 := Nat.succ_le_succ h
  exact ⟨if_pos hlen, if_pos hlen⟩

theorem foldlM_cons (h : r.stepOn host t = .ok r') (ts : List Token) :
    (t :: ts).foldlM (Reader.stepOn host) r = ts.foldlM (Reader.stepOn host) r' := by
  rw [List.foldlM_cons, h]
  rfl

theorem foldlM_append {ts : List Token} (h : ts.foldlM (Reader.stepOn host) r = .ok r') (us : List Token) :
    (ts ++ us).foldlM (Reader.stepOn host) r = us.foldlM (Reader.stepOn host) r' := by
  rw [List.foldlM_append, h]
  rfl

/-! ## Values -/

open Reader

theorem unobstructed {p : Prop} [Decidable p] {rest : Option Obstacle} {o : Obstacle}
    (h : (if p then rest else some o) = none) : p ∧ rest = none := by
  by_cases hp : p
  · rw [if_pos hp] at h
    exact ⟨hp, h⟩
  · rw [if_neg hp] at h
    cases h

theorem obstacleOfItems_cons {level : Nat} {x : Data} {xs : List Data} :
    obstacleOfItems? host level (x :: xs) = none ↔
      obstacle? host level x = none ∧ obstacleOfItems? host level xs = none := by
  rw [obstacleOfItems?, Option.or_eq_none_iff]

theorem obstacleOfPairs_cons {level : Nat} {k v : Data} {ps : List (Data × Data)} :
    obstacleOfPairs? host level ((k, v) :: ps) = none ↔
      keyObstacle? host k = none ∧ obstacle? host level v = none ∧ obstacleOfPairs? host level ps = none := by
  rw [obstacleOfPairs?, Option.or_eq_none_iff, Option.or_eq_none_iff]

mutual

/-- The tokens of a value deliver it, if nothing stands in the way of its writing. -/
theorem foldlM_value (d : Data) {r : Reader} (h : r.Ready) (hd : obstacle? host r.stack.length d = none) :
    (tokensOf d).foldlM (Reader.stepOn host) r = .ok (r.deliver (again d)) := by
  match d with
  | .null | .bool _ | .float _ => exact foldlM_cons (stepOn_eq (step_literal h _) rfl) []
  | .int n =>
    obtain ⟨hspelled, -⟩ := unobstructed hd
    exact foldlM_cons (stepOn_eq (step_literal h (.int n)) (if_pos hspelled)) []
  | .text t => exact foldlM_cons (stepOn_eq (step_quoted h t) rfl) []
  | .list [] | .tuple [] =>
    obtain ⟨hlevel, -⟩ := unobstructed hd
    rw [tokensOf, foldlM_cons (stepOn_eq (step_openArray h) (excess_open hlevel _ _).1)]
    exact foldlM_cons (stepOn_eq (step_closeArray h (.inl rfl) []) rfl) []
  | .list (x :: xs) | .tuple (x :: xs) =>
    obtain ⟨hlevel, hitems⟩ := unobstructed hd
    rw [tokensOf, foldlM_cons (stepOn_eq (step_openArray h) (excess_open hlevel _ _).1),
      foldlM_append (foldlM_items (x :: xs) (by simp) r [] (.inr rfl) hitems), again]
    refine (foldlM_cons (stepOn_eq (step_closeArray h (.inr rfl) _) rfl) []).trans ?_
    rw [List.append_nil, List.reverse_reverse]
    rfl
  | .mapping [] =>
    obtain ⟨hlevel, -⟩ := unobstructed hd
    rw [tokensOf, foldlM_cons (stepOn_eq (step_openObject h) (excess_open hlevel _ _).2)]
    exact foldlM_cons (stepOn_eq (step_closeObject h (.inl rfl) []) rfl) []
  | .mapping (p :: ps) =>
    obtain ⟨hlevel, hpairs⟩ := unobstructed hd
    rw [tokensOf, foldlM_cons (stepOn_eq (step_openObject h) (excess_open hlevel _ _).2),
      foldlM_append (foldlM_pairs (p :: ps) (by simp) r [] (.inr rfl) hpairs), again]
    refine (foldlM_cons (stepOn_eq (step_closeObject h (.inr rfl) _) rfl) []).trans ?_
    rw [List.append_nil, List.reverse_reverse]
    rfl

theorem foldlM_items (xs : List Data) (hne : xs ≠ []) (r : Reader) (items : List Data) {next : Next}
    (hn : next = .value ∨ next = .valueOrClose) (hd : obstacleOfItems? host (r.stack.length + 1) xs = none) :
    (tokensOfItems xs).foldlM (Reader.stepOn host) (r.openWith (.array items) next) =
      .ok (r.openWith (.array ((itemsAgain xs).reverse ++ items)) .commaOrClose) := by
  match xs with
  | [] => exact absurd rfl hne
  | [x] => exact foldlM_value x (ready_array (r := r) hn items) (obstacleOfItems_cons.1 hd).1
  | x :: y :: xs =>
    obtain ⟨hfirst, hrest⟩ := obstacleOfItems_cons.1 hd
    have hx := foldlM_value x (ready_array (r := r) hn items) hfirst
    rw [deliver_array] at hx
    show (tokensOf x ++ .comma :: tokensOfItems (y :: xs)).foldlM (Reader.stepOn host) _ = _
    rw [foldlM_append hx, foldlM_cons (stepOn_eq (step_comma_array _) rfl),
      foldlM_items (y :: xs) (by simp) r _ (.inl rfl) hrest]
    simp [itemsAgain]

theorem foldlM_pairs (ps : List (Data × Data)) (hne : ps ≠ []) (r : Reader) (members : List (Data × Data))
    {next : Next} (hn : next = .name ∨ next = .nameOrClose)
    (hd : obstacleOfPairs? host (r.stack.length + 1) ps = none) :
    (tokensOfPairs ps).foldlM (Reader.stepOn host) (r.openWith (.object members none) next) =
      .ok (r.openWith (.object ((pairsAgain ps).reverse ++ members) none) .commaOrClose) := by
  match ps with
  | [] => exact absurd rfl hne
  | [(k, v)] =>
    obtain ⟨-, hv, -⟩ := obstacleOfPairs_cons.1 hd
    rw [tokensOfPairs, foldlM_cons (stepOn_eq (step_name hn members _) rfl),
      foldlM_cons (stepOn_eq (step_colon members _) rfl)]
    exact foldlM_value v (ready_object (r := r) members ((keyText? k).getD [])) hv
  | (k, v) :: p :: ps =>
    obtain ⟨-, hfirst, hrest⟩ := obstacleOfPairs_cons.1 hd
    have hv := foldlM_value v (ready_object (r := r) members ((keyText? k).getD [])) hfirst
    rw [deliver_object] at hv
    show (.quoted _ :: .colon :: (tokensOf v ++ .comma :: tokensOfPairs (p :: ps))).foldlM (Reader.stepOn host) _ = _
    rw [foldlM_cons (stepOn_eq (step_name hn members _) rfl), foldlM_cons (stepOn_eq (step_colon members _) rfl),
      foldlM_append hv, foldlM_cons (stepOn_eq (step_comma_object _) rfl),
      foldlM_pairs (p :: ps) (by simp) r _ (.inl rfl) hrest]
    simp [pairsAgain]

end

/-- What was written is read as the value it spells. -/
theorem readOn_tokens {d : Data} (h : obstacle? host 0 d = none) {t : Text} (ht : tokens t = tokensOf d) :
    readOn host t = .ok (again d) := by
  have hready : Reader.Ready {} := ⟨rfl, fun members s e => by cases e⟩
  rw [readOn, ht, readTokens, foldlM_value d hready h]
  rfl

theorem read_write {d : Data} (hd : isDiscrete d = true) (h : obstacle? host 0 d = none) :
    readOn host (write d) = .ok (again d) :=
  readOn_tokens h (lexes_write d hd 0).tokens

end MessageCatalog.Json
