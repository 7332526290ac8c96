/-
  MessageCatalog.Proofs.Json.Nesting — brackets that are opened one in another.

  Each of them is put on the stack before anything behind it is looked at, so the text ends
  where the host has no room for one more, whatever follows.

  Proved: a text with more open brackets than the host has room for is not read
  (`readOn_nested`).
-/

import MessageCatalog.Proofs.Json.RoundTrip

namespace MessageCatalog.Json

/-! ## Tokens stay -/

theorem tokens_start (l : Lexer) (c : Code) : l.tokens <:+ (l.start c).tokens := by
  unfold Lexer.start
  split
  · exact List.suffix_cons _ _
  · repeat' split
    all_goals first | exact List.suffix_rfl | exact List.suffix_cons _ _

theorem tokens_step (l : Lexer) (c : Code) : l.tokens <:+ (l.step c).tokens := by
  unfold Lexer.step
  split
  · exact tokens_start l c
  · split
    · exact List.suffix_rfl
    · exact (List.suffix_cons _ _).trans (tokens_start (l.put _) c)
  all_goals
    repeat' split
    all_goals first | exact List.suffix_rfl | exact List.suffix_cons _ _

theorem tokens_foldl (t : Text) (l : Lexer) : l.tokens <:+ (t.foldl Lexer.step l).tokens := by
  induction t generalizing l with
  | nil => exact List.suffix_rfl
  | cons c t ih => exact (tokens_step l c).trans (ih (l.step c))

theorem tokens_finish (l : Lexer) : l.tokens.reverse <+: l.finish := by
  unfold Lexer.finish
  split
  · exact List.prefix_rfl
  · exact List.prefix_rfl
  all_goals exact List.reverse_prefix.2 (List.suffix_cons _ _)

theorem tokens_append {t : Text} {ts : List Token} (h : Closed t ts) (u : Text) :
    ∃ us, tokens (t ++ u) = ts ++ us := by
  have hfront : t.foldl Lexer.step {} = ⟨ts.reverse, .between⟩ := by
    rw [h [], List.append_nil]
  have hsuffix := tokens_foldl u ⟨ts.reverse, .between⟩
  have hprefix := (List.reverse_prefix.2 hsuffix).trans (tokens_finish _)
  obtain ⟨us, hus⟩ := hprefix
  refine ⟨us, ?_⟩
  rw [tokens, List.foldl_append, hfront, ← hus, List.reverse_reverse]

/-! ## Nesting -/

theorem closed_opened (n : Nat) : Closed (List.replicate n ('[' : Code)) (List.replicate n .openArray) := by
  induction n with
  | zero => exact fun _ => rfl
  | succ n ih => exact (closed_mark (c := '[') rfl).append ih

section

variable {host : Host} {r : Reader}

theorem stepOn_full (h : r.Ready) (hfull : host.room < r.stack.length) : r.stepOn host .openArray = .error .tooDeep := by
  have hexcess : (r.openWith (.array []) .valueOrClose).excess? host .openArray = some .tooDeep := by
    refine if_neg fun hlen => ?_
    have hstack : (r.openWith (.array []) .valueOrClose).stack.length = r.stack.length + 1 := rfl
    omega
  simp only [Reader.stepOn, Reader.step_openArray h, hexcess]

/-- One open bracket after the other, until the host has no more room. -/
theorem foldlM_opened {n : Nat} (h : r.Ready) (hstack : r.stack.length ≤ host.room + 1)
    (hn : host.room + 1 < r.stack.length + n) (us : List Token) :
    (List.replicate n Token.openArray ++ us).foldlM (Reader.stepOn host) r = .error .tooDeep := by
  induction n generalizing r with
  | zero => omega
  | succ n ih =>
    rw [List.replicate_succ, List.cons_append, List.foldlM_cons]
    by_cases hfull : host.room < r.stack.length
    · rw [stepOn_full h hfull]
      rfl
    · rw [stepOn_eq (Reader.step_openArray h) (excess_open (Nat.le_of_not_lt hfull) _ _).1]
      have hopened : (r.openWith (.array []) .valueOrClose).stack.length = r.stack.length + 1 := rfl
      exact ih (Reader.ready_array (.inr rfl) []) (by omega) (by omega)

end

/-- Where more brackets are opened than there is room for, nothing is read, whatever stands
in front of them and behind. -/
theorem readOn_nested {host : Host} {front : Text} {ts : List Token} (hfront : Closed front ts) {r : Reader}
    (hr : ts.foldlM (Reader.stepOn host) {} = .ok r) (h : r.Ready) (hstack : r.stack.length ≤ host.room + 1) {n : Nat}
    (hn : host.room + 1 < r.stack.length + n) (rest : Text) :
    readOn host (front ++ List.replicate n ('[' : Code) ++ rest) = .error .tooDeep := by
  obtain ⟨us, hus⟩ := tokens_append (hfront.append (closed_opened n)) rest
  have hfail : (ts ++ (List.replicate n Token.openArray ++ us)).foldlM (Reader.stepOn host) {} = .error .tooDeep := by
    rw [List.foldlM_append, hr]
    exact foldlM_opened h hstack hn us
  rw [readOn, hus, readTokens, List.append_assoc, hfail]
  rfl

end MessageCatalog.Json
