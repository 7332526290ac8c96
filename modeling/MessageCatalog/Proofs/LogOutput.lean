/-
  MessageCatalog.Proofs.LogOutput — records are shown once, as the last set-up says.

  The handlers are taken away by a loop over a copy of their list, so none is left and the
  new one is the only one, whatever was there. What is written then depends on the last
  set-up alone.

  Proved: after any set-ups every record that the last output shows is shown once, in
  order, by the last handler (`writeAll_setUps`); without debugging exactly the records of
  the level `debug` are missing (`shows_iff`).
-/

import MessageCatalog.LogOutput

namespace MessageCatalog

namespace LogOutput

/-- Debugging adds the records of the least level, and no others. -/
theorem shows_iff (o : LogOutput) (l : Level) : o.shows l = true ↔ o.debug = true ∨ l ≠ .debug := by
  rw [shows, threshold]
  cases o.debug <;> cases l <;> decide

end LogOutput

namespace Logging

theorem foldl_erase_append (hs rest : List Nat) : hs.foldl List.erase (hs ++ rest) = rest := by
  induction hs with
  | nil => rfl
  | cons h hs ih =>
    rw [List.foldl_cons, List.cons_append, List.erase_cons_head]
    exact ih

theorem handlers_detach (s : Logging) : s.detach.handlers = [] := by
  have hall := foldl_erase_append s.handlers []
  rwa [List.append_nil] at hall

theorem setUp_eq (s : Logging) (o : LogOutput) (handler : Nat) : s.setUp o handler = ⟨[handler], o⟩ := by
  rw [setUp, handlers_detach]
  rfl

theorem foldl_setUp (s : Logging) (ups : List (LogOutput × Nat)) (o : LogOutput) (handler : Nat) :
    ((ups ++ [(o, handler)]).foldl (fun s u => s.setUp u.1 u.2) s) = ⟨[handler], o⟩ := by
  rw [List.foldl_append]
  exact setUp_eq _ o handler

theorem writeAll_setUps (s : Logging) (ups : List (LogOutput × Nat)) (o : LogOutput) (handler : Nat) (rs : List Record) :
    ((ups ++ [(o, handler)]).foldl (fun s u => s.setUp u.1 u.2) s).writeAll rs =
      (rs.filter fun r => o.shows r.level).map fun r => (handler, r) := by
  rw [foldl_setUp, writeAll]
  induction rs with
  | nil => rfl
  | cons r rs ih =>
    rw [List.flatMap_cons, ih, write, List.filter_cons]
    cases o.shows r.level <;> rfl

end Logging

end MessageCatalog
