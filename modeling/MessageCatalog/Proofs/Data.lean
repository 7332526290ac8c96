/-
  MessageCatalog.Proofs.Data — texts as values.

  As keys and in lists, texts behave as the texts they are: equal when those are, and
  comparable among themselves.
-/

import MessageCatalog.Data.Order
import MessageCatalog.Proofs.Table

namespace MessageCatalog.Data

@[simp] theorem text_beq (s t : Text) : (Data.text s == Data.text t) = (s == t) := rfl

theorem text_beq_iff {t : Text} {d : Data} : (Data.text t == d) = true ↔ d = .text t := by
  constructor
  · intro h
    cases d with
    | text s => rw [eq_of_beq (α := Text) h]
    | float x =>
      have h' : sameScalar (.text t) (.float x) = true := h
      cases hx : x.toInt? <;> simp [sameScalar, integer?, hx] at h'
    | _ => cases h
  · rintro rfl
    exact beq_self_eq_true t

theorem beq_text_comm (d : Data) (t : Text) : (d == Data.text t) = (Data.text t == d) := by
  cases d with
  | text s => exact BEq.comm (α := Text)
  | float x =>
    show sameScalar (.float x) (.text t) = sameScalar (.text t) (.float x)
    cases hx : x.toInt? <;> simp [sameScalar, integer?, hx]
  | _ => rfl

theorem beq_text_iff {t : Text} {d : Data} : (d == Data.text t) = true ↔ d = .text t := by
  rw [beq_text_comm, text_beq_iff]

theorem any_text (ts : List Text) (t : Text) :
    (ts.map Data.text).any (fun d => Data.text t == d) = decide (t ∈ ts) := by
  rw [List.any_map]
  exact List.contains_eq_any_beq.symm.trans (List.contains_eq_mem t ts)

theorem areHashable_texts (ts : List Text) : areHashable (ts.map .text) = true := by
  induction ts with
  | nil => rfl
  | cons t ts ih => exact ih

theorem get?_text {β : Type} (t : Table Text β) (f : β → Data) (k : Text) :
    get? (t.entries.map fun e => (.text e.1, f e.2)) (.text k) = (t.get? k).map f := by
  rw [get?, Table.get?, List.find?_map, Option.map_map, Option.map_map]
  rfl

/-! ## Order -/

theorem insertSorted_texts (t : Text) (ts : List Text) :
    ∃ us : List Text, insertSorted? (.text t) (ts.map .text) = some (us.map .text) := by
  induction ts with
  | nil => exact ⟨[t], rfl⟩
  | cons s ts ih =>
    obtain ⟨us, hus⟩ := ih
    have hless : less? (.text s) (.text t) = some (decide (s < t)) := rfl
    by_cases hst : s < t
    · exact ⟨s :: us, by simp [insertSorted?, hless, hst, hus]⟩
    · exact ⟨t :: s :: ts, by simp [insertSorted?, hless, hst]⟩

theorem sorted_texts (ts : List Text) : ∃ us : List Text, sorted? (ts.map .text) = some (us.map .text) := by
  induction ts with
  | nil => exact ⟨[], rfl⟩
  | cons t ts ih =>
    obtain ⟨us, hus⟩ := ih
    obtain ⟨vs, hvs⟩ := insertSorted_texts t us
    exact ⟨vs, by rw [List.map_cons, sorted?, hus, Option.bind_some, hvs]⟩

end MessageCatalog.Data
