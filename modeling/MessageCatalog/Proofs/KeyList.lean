/-
  MessageCatalog.Proofs.KeyList — lists of keys of any kind, and of texts.

  A list of keys takes what can be a key. Texts can, and as keys they are equal only to
  themselves, so a list of them is the list of rejected keys that extraction keeps.

  Proved: a list is added exactly if all its items can be keys, and then as they would be
  one by one (`insertAll_items`); a list of texts always is, and holds what a list of
  rejected keys holds (`ofTexts_rejected`).
-/

import MessageCatalog.Key
import MessageCatalog.KeyList
import MessageCatalog.Proofs.Data

namespace MessageCatalog.KeyList

theorem insert_eq (s : KeyList) (k : Data) :
    s.insert k = if k.isHashable then .ok (s.add k) else .error (.plain .wrongType) := by
  rw [insert, checked]
  split <;> rfl

/-- One item that cannot be a key refuses the whole list. -/
theorem insertAll_items (s : KeyList) {ks : Data} {xs : List Data} (h : ks.items? = some xs) :
    s.insertAll ks = if xs.all Data.isHashable then .ok (s.addAll xs) else .error (.plain .wrongType) := by
  rw [insertAll, h]
  show xs.foldlM insert s = _
  clear h
  induction xs generalizing s with
  | nil => rfl
  | cons x xs ih =>
    rw [List.foldlM_cons, insert_eq, List.all_cons]
    cases hx : x.isHashable with
    | false => rfl
    | true => exact ih (s.add x)

theorem all_hashable_texts (ts : List Text) : (ts.map Data.text).all Data.isHashable = true := by
  rw [List.all_map]
  exact List.all_eq_true.2 fun _ _ => rfl

theorem insertAll_texts (s : KeyList) (ts : List Text) :
    s.insertAll (.ofTexts ts) = .ok (s.addAll (ts.map .text)) := by
  have hitems : (Data.ofTexts ts).items? = some (ts.map .text) := rfl
  rw [insertAll_items s hitems, all_hashable_texts]
  rfl

/-- Texts as keys are the list of rejected keys, and are found where they were added. -/
theorem ofTexts_rejected (ts : List Text) : ∃ s : KeyList,
    insertAll .empty (.ofTexts ts) = .ok s ∧ s.toList = (Distinct.empty.addAll ts : RejectedKeys).toList.map .text ∧
      ∀ t, s.has (.text t) = .ok (decide (t ∈ ts)) := by
  have hlist : (Distinct.empty.addAll (ts.map Data.text)).toList = (Distinct.empty.addAll ts : RejectedKeys).toList.map .text :=
    Distinct.dedup_map Data.text_beq ts
  refine ⟨_, insertAll_texts .empty ts, hlist, fun t => congrArg Except.ok ?_⟩
  have hmem : t ∈ (Distinct.empty.addAll ts : RejectedKeys).toList ↔ t ∈ ts :=
    Distinct.mem_dedup_iff fun _ => beq_iff_eq
  rw [Distinct.contains, hlist, List.any_map, Bool.eq_iff_iff, decide_eq_true_eq, ← hmem, List.any_eq_true]
  simp

end MessageCatalog.KeyList
