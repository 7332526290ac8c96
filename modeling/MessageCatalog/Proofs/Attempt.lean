/-
  MessageCatalog.Proofs.Attempt — what an operation gives, its log apart.

  Nothing depends on what was logged, so outcomes are computed without it.
-/

import MessageCatalog.Attempt

namespace MessageCatalog

theorem ok_of_toOption {ε α : Type} {x : Except ε α} {a : α} (h : x.toOption = some a) : x = .ok a := by
  cases x with
  | error e => cases h
  | ok b => exact congrArg Except.ok (Option.some.inj h)

namespace Logged

variable {α β : Type}

@[simp] theorem value_pure (a : α) : (pure a : Logged α).value = a := rfl

@[simp] theorem value_bind (x : Logged α) (f : α → Logged β) : (x >>= f).value = (f x.value).value := rfl

theorem ext {x y : Logged α} (hvalue : x.value = y.value) (hjournal : x.journal = y.journal) : x = y := by
  cases x
  cases y
  simp_all

instance : LawfulMonad Logged :=
  LawfulMonad.mk' Logged
    (fun _ => ext rfl (List.append_nil _))
    (fun _ _ => rfl)
    (fun _ _ _ => ext rfl (List.append_assoc _ _ _))

theorem value_foldlM (f : β → α → Logged β) (b : β) (xs : List α) :
    (xs.foldlM f b).value = xs.foldl (fun b x => (f b x).value) b := by
  induction xs generalizing b with
  | nil => rfl
  | cons x xs ih => rw [List.foldlM_cons, value_bind, ih, List.foldl_cons]

end Logged

namespace Attempt

variable {α β : Type}

@[simp] theorem value_pure (a : α) : (pure a : Attempt α).run.value = .ok a := rfl

@[simp] theorem value_ofLogged (x : Logged α) : (ofLogged x).run.value = .ok x.value := rfl

@[simp] theorem value_ofExcept (x : Except Fault α) : (ofExcept x).run.value = x := rfl

@[simp] theorem value_log (r : Record) : (log r).run.value = .ok () := rfl

@[simp] theorem value_bind (x : Attempt α) (f : α → Attempt β) :
    (x >>= f).run.value = x.run.value.bind fun a => (f a).run.value := by
  show (Logged.value (ExceptT.bindCont f x.run.value)) = _
  cases x.run.value <;> rfl

end Attempt

end MessageCatalog
