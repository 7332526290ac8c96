/-
  MessageCatalog.Proofs.Table — tables and lists without repetitions, filled one by one.

  What has no repetition already is taken over as it is, and what every item added has,
  every item of the outcome has. A table gives what was written last for a key
  (`get?_insertAll`); its keys stand in the order in which they were first written
  (`keySet_insertAll`).
-/

import MessageCatalog.Table

namespace MessageCatalog

/-! ## Distinct -/

namespace Distinct

variable {α : Type} [BEq α]

theorem toList_add_of_fresh {s : Distinct α} {x : α} (h : s.contains x = false) :
    (s.add x).toList = s.toList ++ [x] := by
  simp [add, h]

theorem forall_mem_add {p : α → Prop} {s : Distinct α} (h : ∀ x ∈ s.toList, p x) {x : α} (hx : p x) :
    ∀ y ∈ (s.add x).toList, p y := by
  rw [add]
  split
  · exact h
  · intro y hy
    rcases List.mem_append.1 hy with hy | hy
    · exact h y hy
    · rw [List.mem_singleton.1 hy]
      exact hx

theorem forall_mem_addAll {p : α → Prop} {s : Distinct α} (h : ∀ x ∈ s.toList, p x) {xs : List α}
    (hx : ∀ x ∈ xs, p x) : ∀ y ∈ (s.addAll xs).toList, p y := by
  induction xs generalizing s with
  | nil => exact h
  | cons x xs ih =>
    exact ih (forall_mem_add h (hx x (by simp))) fun y hy => hx y (List.mem_cons_of_mem x hy)

theorem toList_addAll {s : Distinct α} {xs : List α}
    (h : (s.toList ++ xs).Pairwise fun a b => (a == b) = false) : (s.addAll xs).toList = s.toList ++ xs := by
  induction xs generalizing s with
  | nil => simp [addAll]
  | cons x xs ih =>
    have hx : s.contains x = false := by
      refine Bool.eq_false_iff.2 fun e => ?_
      obtain ⟨a, ha, hax⟩ := List.any_eq_true.1 e
      rw [(List.pairwise_append.1 h).2.2 a ha x (by simp)] at hax
      cases hax
    have hadd := toList_add_of_fresh hx
    have : ((s.add x).addAll xs).toList = (s.add x).toList ++ xs := ih (by rw [hadd]; simpa using h)
    rw [hadd] at this
    simpa [addAll] using this

theorem toList_ofList {xs : List α} (h : xs.Pairwise fun a b => (a == b) = false) : (ofList xs).toList = xs :=
  toList_addAll (by simpa [empty] using h)

/-- A map that keeps what is equal and what is not commutes with dropping repetitions. -/
theorem dedup_map {β : Type} [BEq β] {f : α → β} (hf : ∀ a b, (f a == f b) = (a == b)) (xs : List α) :
    dedup (xs.map f) = (dedup xs).map f := by
  have hadd : ∀ (s : Distinct α) (u : Distinct β) (x : α), u.toList = s.toList.map f →
      (u.add (f x)).toList = (s.add x).toList.map f := by
    intro s u x h
    have hc : u.contains (f x) = s.contains x := by
      rw [contains, contains, h, List.any_map]
      exact congrArg s.toList.any (funext fun a => hf a x)
    cases hx : s.contains x with
    | true => rw [add, add, dif_pos hx, dif_pos (hc.trans hx), h]
    | false =>
      rw [toList_add_of_fresh hx, toList_add_of_fresh (hc.trans hx), h, List.map_append, List.map_singleton]
  have hall : ∀ (s : Distinct α) (u : Distinct β), u.toList = s.toList.map f →
      (u.addAll (xs.map f)).toList = (s.addAll xs).toList.map f := by
    induction xs with
    | nil => exact fun s u h => h
    | cons x xs ih => exact fun s u h => ih (s.add x) (u.add (f x)) (hadd s u x h)
  exact hall empty empty rfl

theorem ext {s u : Distinct α} (h : s.toList = u.toList) : s = u := by
  obtain ⟨xs, _⟩ := s
  obtain ⟨ys, _⟩ := u
  obtain rfl : xs = ys := h
  rfl

theorem addAll_append (s : Distinct α) (xs ys : List α) : s.addAll (xs ++ ys) = (s.addAll xs).addAll ys :=
  List.foldl_append

theorem mem_of_mem_dedup {x : α} {xs : List α} (h : x ∈ dedup xs) : x ∈ xs :=
  forall_mem_addAll (p := (· ∈ xs)) (s := empty) (fun _ hy => by cases hy) (fun _ hy => hy) x h

theorem mem_add_iff {x : α} (hx : ∀ y : α, (y == x) = true ↔ y = x) (s : Distinct α) (y : α) :
    x ∈ (s.add y).toList ↔ x ∈ s.toList ∨ x = y := by
  rw [add]
  split
  · rename_i hy
    refine ⟨.inl, fun h => h.elim id ?_⟩
    rintro rfl
    obtain ⟨a, ha, hax⟩ := List.any_eq_true.1 hy
    rwa [← (hx a).1 hax]
  · rw [List.mem_append, List.mem_singleton]

theorem mem_addAll_iff {x : α} (hx : ∀ y : α, (y == x) = true ↔ y = x) (s : Distinct α) (xs : List α) :
    x ∈ (s.addAll xs).toList ↔ x ∈ s.toList ∨ x ∈ xs := by
  induction xs generalizing s with
  | nil => simp [addAll]
  | cons y xs ih =>
    have hstep : x ∈ ((s.add y).addAll xs).toList ↔ x ∈ (s.add y).toList ∨ x ∈ xs := ih (s.add y)
    rw [List.mem_cons, ← or_assoc, ← mem_add_iff hx]
    exact hstep

/-- An item that equals no other is not lost with the repetitions. -/
theorem mem_dedup_iff {x : α} (hx : ∀ y : α, (y == x) = true ↔ y = x) {xs : List α} : x ∈ dedup xs ↔ x ∈ xs :=
  (mem_addAll_iff hx empty xs).trans (by simp [empty])

theorem filter_dedup [LawfulBEq α] (p : α → Bool) (xs : List α) : (dedup xs).filter p = dedup (xs.filter p) := by
  have hadd : ∀ (s u : Distinct α) (x : α), u.toList = s.toList.filter p →
      (if p x then u.add x else u).toList = (s.add x).toList.filter p := by
    intro s u x h
    by_cases hx : p x = true
    · have hc : u.contains x = s.contains x := by
        rw [contains, contains, h, List.any_filter]
        refine congrArg s.toList.any (funext fun a => ?_)
        by_cases ha : (a == x) = true
        · rw [eq_of_beq ha, hx, Bool.true_and]
        · rw [Bool.eq_false_iff.2 ha, Bool.and_false]
      cases hs : s.contains x with
      | true => rw [if_pos hx, add, dif_pos (hc.trans hs), add, dif_pos hs, h]
      | false =>
        rw [if_pos hx, toList_add_of_fresh (hc.trans hs), toList_add_of_fresh hs, h, List.filter_append]
        simp [hx]
    · rw [if_neg hx, h, add]
      split
      · rfl
      · simp [List.filter_append, hx]
  have hall : ∀ s u : Distinct α, u.toList = s.toList.filter p →
      (u.addAll (xs.filter p)).toList = (s.addAll xs).toList.filter p := by
    induction xs with
    | nil => exact fun s u h => h
    | cons x xs ih =>
      intro s u h
      have hstep := ih (s.add x) _ (hadd s u x h)
      by_cases hx : p x = true
      · rw [if_pos hx] at hstep
        rw [List.filter_cons, if_pos hx]
        exact hstep
      · rw [if_neg hx] at hstep
        rw [List.filter_cons, if_neg hx]
        exact hstep
  exact (hall empty empty rfl).symm

theorem add_of_contains {s : Distinct α} {x : α} (h : s.contains x = true) : s.add x = s := dif_pos h

theorem contains_add [LawfulBEq α] (s : Distinct α) (x : α) : (s.add x).contains x = true := by
  rw [add]
  split
  · assumption
  · exact List.any_eq_true.2 ⟨x, by simp, beq_self_eq_true x⟩

theorem addAll_replicate [LawfulBEq α] (s : Distinct α) (x : α) (n : Nat) :
    s.addAll (List.replicate (n + 1) x) = s.add x := by
  induction n generalizing s with
  | zero => rfl
  | succ n ih =>
    have hmore : s.addAll (List.replicate (n + 1 + 1) x) = (s.add x).addAll (List.replicate (n + 1) x) := rfl
    rw [hmore, ih, add_of_contains (contains_add s x)]

/-- What is added to a list that is added is added after it. -/
theorem addAll_add [LawfulBEq α] (s u : Distinct α) (x : α) :
    s.addAll (u.add x).toList = (s.addAll u.toList).add x := by
  by_cases hx : u.contains x = true
  · have hthere : (s.addAll u.toList).contains x = true := by
      obtain ⟨a, ha, hax⟩ := List.any_eq_true.1 hx
      exact List.any_eq_true.2 ⟨a, (mem_addAll_iff (fun _ => beq_iff_eq) s u.toList).2 (.inr ha), hax⟩
    rw [add_of_contains hx, add_of_contains hthere]
  · rw [toList_add_of_fresh (Bool.eq_false_iff.2 hx), addAll_append]
    rfl

theorem addAll_addAll [LawfulBEq α] (s u : Distinct α) (xs : List α) :
    s.addAll (u.addAll xs).toList = (s.addAll u.toList).addAll xs := by
  induction xs generalizing u with
  | nil => rfl
  | cons x xs ih =>
    have hstep : s.addAll ((u.add x).addAll xs).toList = (s.addAll (u.add x).toList).addAll xs := ih (u.add x)
    rw [addAll_add] at hstep
    exact hstep

/-- Of two items that were kept, the one in front occurred before the other one did. -/
theorem pairwise_dedup [LawfulBEq α] (xs : List α) :
    (dedup xs).Pairwise fun a b => ∃ front back, xs = front ++ a :: back ∧ b ∉ front := by
  have hall : ∀ done : List α,
      ((dedup done).Pairwise fun a b => ∃ front back, done = front ++ a :: back ∧ b ∉ front) →
      (dedup (done ++ xs)).Pairwise fun a b => ∃ front back, done ++ xs = front ++ a :: back ∧ b ∉ front := by
    induction xs with
    | nil => exact fun done h => by rwa [List.append_nil]
    | cons x xs ih =>
      intro done h
      have hmore : (dedup done).Pairwise fun a b => ∃ front back, done ++ [x] = front ++ a :: back ∧ b ∉ front := by
        refine h.imp fun ⟨front, back, hsplit, hb⟩ => ⟨front, back ++ [x], ?_, hb⟩
        rw [hsplit, List.append_assoc, List.cons_append]
      have hsnoc : dedup (done ++ [x]) = ((ofList done).add x).toList :=
        congrArg toList (addAll_append empty done [x])
      have hnext := ih (done ++ [x])
      rw [hsnoc, List.append_assoc, List.singleton_append] at hnext
      apply hnext
      by_cases hx : (ofList done).contains x = true
      · rw [add_of_contains hx]
        exact hmore
      · rw [toList_add_of_fresh (Bool.eq_false_iff.2 hx)]
        refine List.pairwise_append.2 ⟨hmore, List.pairwise_singleton _ _, fun a ha b hb => ?_⟩
        obtain rfl := List.mem_singleton.1 hb
        -- what is new at the end does not occur before
        have hfresh : b ∉ done := fun hmem =>
          hx (List.any_eq_true.2 ⟨b, (mem_dedup_iff fun _ => beq_iff_eq).2 hmem, beq_self_eq_true b⟩)
        obtain ⟨front, back, hsplit⟩ := List.append_of_mem (mem_of_mem_dedup ha)
        refine ⟨front, back ++ [b], by rw [hsplit, List.append_assoc, List.cons_append], fun hmem => hfresh ?_⟩
        rw [hsplit]
        exact List.mem_append_left _ hmem
  exact hall [] List.Pairwise.nil

theorem nodup [LawfulBEq α] (s : Distinct α) : s.toList.Nodup := by
  refine s.distinct.imp fun h e => ?_
  rw [e, beq_self_eq_true] at h
  cases h

end Distinct

/-! ## Tables -/

namespace Table

variable {κ β : Type} [BEq κ]

theorem write_of_fresh {k : κ} {es : List (κ × β)} (h : es.any (·.1 == k) = false) (v : β) :
    write k v es = es ++ [(k, v)] := by
  induction es with
  | nil => rfl
  | cons e es ih =>
    rw [List.any_cons, Bool.or_eq_false_iff] at h
    rw [write, if_neg (by simp [h.1]), ih h.2, List.cons_append]

theorem any_key_eq_false [LawfulBEq κ] {k : κ} {es : List (κ × β)} (h : k ∉ es.map (·.1)) :
    es.any (·.1 == k) = false := by
  refine List.any_eq_false.2 fun e he hk => h ?_
  rw [← eq_of_beq hk]
  exact List.mem_map_of_mem he

theorem write_last [LawfulBEq κ] {k : κ} {es : List (κ × β)} (h : k ∉ es.map (·.1)) (v w : β) :
    write k v (es ++ [(k, w)]) = es ++ [(k, v)] := by
  induction es with
  | nil => simp [write]
  | cons e es ih =>
    rw [List.map_cons, List.mem_cons, not_or] at h
    rw [List.cons_append, write, if_neg fun he => h.1 (eq_of_beq he).symm, ih h.2, List.cons_append]

theorem forall_key_insert {p : κ → Prop} {t : Table κ β} (h : ∀ k ∈ t.keys, p k) {k : κ} (hk : p k) (v : β) :
    ∀ k' ∈ (t.insert k v).keys, p k' := by
  intro k' hk'
  rw [keys, insert, map_fst_write] at hk'
  split at hk'
  · exact h k' hk'
  · rcases List.mem_append.1 hk' with hk' | hk'
    · exact h k' hk'
    · rw [List.mem_singleton.1 hk']
      exact hk

theorem forall_key_insertAll {p : κ → Prop} {t : Table κ β} (h : ∀ k ∈ t.keys, p k) {es : List (κ × β)}
    (he : ∀ e ∈ es, p e.1) : ∀ k ∈ (t.insertAll es).keys, p k := by
  induction es generalizing t with
  | nil => exact h
  | cons e es ih =>
    exact ih (forall_key_insert h (he e (by simp)) e.2) fun f hf => he f (List.mem_cons_of_mem e hf)

theorem entries_insertAll {t : Table κ β} {es : List (κ × β)}
    (h : ((t.entries ++ es).map (·.1)).Pairwise fun a b => (a == b) = false) :
    (t.insertAll es).entries = t.entries ++ es := by
  induction es generalizing t with
  | nil => simp [insertAll]
  | cons e es ih =>
    have he : t.entries.any (·.1 == e.1) = false := by
      refine Bool.eq_false_iff.2 fun q => ?_
      obtain ⟨a, ha, hae⟩ := List.any_eq_true.1 q
      rw [List.map_append] at h
      rw [(List.pairwise_append.1 h).2.2 a.1 (List.mem_map_of_mem ha) e.1 (by simp)] at hae
      cases hae
    have hins : (t.insert e.1 e.2).entries = t.entries ++ [e] := write_of_fresh he e.2
    have : ((t.insert e.1 e.2).insertAll es).entries = (t.insert e.1 e.2).entries ++ es :=
      ih (by rw [hins]; simpa using h)
    rw [hins] at this
    simpa [insertAll] using this

theorem entries_ofList {es : List (κ × β)} (h : (es.map (·.1)).Pairwise fun a b => (a == b) = false) :
    (ofList es).entries = es :=
  entries_insertAll (by simpa [empty] using h)

theorem entries_insertAll_same [LawfulBEq κ] {t : Table κ β} {k : κ} {v : β} (ht : t.entries = [(k, v)])
    {es : List (κ × β)} (h : ∀ e ∈ es, e.1 = k) :
    (t.insertAll es).entries = [(k, ((es.getLast?).map (·.2)).getD v)] := by
  induction es generalizing t v with
  | nil => exact ht
  | cons e es ih =>
    have hinsert : (t.insert e.1 e.2).entries = [(k, e.2)] := by
      show write e.1 e.2 t.entries = _
      rw [ht, h e List.mem_cons_self]
      simp [write]
    show ((t.insert e.1 e.2).insertAll es).entries = _
    rw [ih hinsert fun x hx => h x (List.mem_cons_of_mem e hx), List.getLast?_cons]
    cases es.getLast? <;> rfl

theorem entries_ofList_same [LawfulBEq κ] {es : List (κ × β)} (h : ∀ d ∈ es, ∀ e ∈ es, d.1 = e.1) :
    (ofList es).entries = es.getLast?.toList := by
  cases es with
  | nil => rfl
  | cons e es =>
    have hsame : ∀ x ∈ es, x.1 = e.1 := fun x hx => h x (List.mem_cons_of_mem e hx) e List.mem_cons_self
    show ((empty.insert e.1 e.2).insertAll es).entries = _
    rw [entries_insertAll_same rfl hsame, List.getLast?_cons]
    cases hlast : es.getLast? with
    | none => rfl
    | some x =>
      have hx := hsame x (List.mem_of_getLast? hlast)
      simp [← hx]

theorem forall_value_insert {p : β → Prop} {t : Table κ β} (h : ∀ e ∈ t.entries, p e.2) (k : κ) {v : β} (hv : p v) :
    ∀ e ∈ (t.insert k v).entries, p e.2 := by
  have hwrite : ∀ es : List (κ × β), (∀ e ∈ es, p e.2) → ∀ e ∈ write k v es, p e.2 := by
    intro es h
    induction es with
    | nil => exact List.forall_mem_singleton.2 hv
    | cons e es ih =>
      obtain ⟨he, hes⟩ := List.forall_mem_cons.1 h
      rw [write]
      split
      · exact List.forall_mem_cons.2 ⟨hv, hes⟩
      · exact List.forall_mem_cons.2 ⟨he, ih hes⟩
  exact hwrite t.entries h

theorem forall_value_insertAll {p : β → Prop} {t : Table κ β} (h : ∀ e ∈ t.entries, p e.2) {es : List (κ × β)}
    (he : ∀ e ∈ es, p e.2) : ∀ e ∈ (t.insertAll es).entries, p e.2 := by
  induction es generalizing t with
  | nil => exact h
  | cons e es ih =>
    exact ih (forall_value_insert h e.1 (he e (by simp))) fun f hf => he f (List.mem_cons_of_mem e hf)

theorem filter_write [LawfulBEq κ] (p : κ → Bool) (k : κ) (v : β) (es : List (κ × β)) :
    (write k v es).filter (fun e => p e.1) =
      if p k then write k v (es.filter fun e => p e.1) else es.filter fun e => p e.1 := by
  induction es with
  | nil => by_cases hk : p k = true <;> simp [write, hk]
  | cons e es ih =>
    by_cases he : (e.1 == k) = true
    · obtain rfl := eq_of_beq he
      by_cases hk : p e.1 = true <;> simp [write, hk]
    · rw [write, if_neg he, List.filter_cons, ih]
      by_cases hk : p k = true <;> by_cases hp : p e.1 = true <;> simp [write, hk, hp, he]

/-- Writing entries does not depend on those of other keys. -/
theorem filter_ofList [LawfulBEq κ] (p : κ → Bool) (es : List (κ × β)) :
    (ofList es).entries.filter (fun e => p e.1) = (ofList (es.filter fun e => p e.1)).entries := by
  have hall : ∀ t u : Table κ β, u.entries = t.entries.filter (fun e => p e.1) →
      (t.insertAll es).entries.filter (fun e => p e.1) = (u.insertAll (es.filter fun e => p e.1)).entries := by
    induction es with
    | nil => exact fun t u h => h.symm
    | cons e es ih =>
      intro t u h
      have hwrite := filter_write p e.1 e.2 t.entries
      rw [← h] at hwrite
      by_cases he : p e.1 = true
      · rw [if_pos he] at hwrite
        rw [List.filter_cons, if_pos he]
        exact ih (t.insert e.1 e.2) (u.insert e.1 e.2) hwrite.symm
      · rw [if_neg he] at hwrite
        rw [List.filter_cons, if_neg he]
        exact ih (t.insert e.1 e.2) u hwrite.symm
  exact hall empty empty rfl

theorem write_map {α : Type} [BEq α] {f : κ → α} (hf : ∀ a b, (f a == f b) = (a == b)) (k : κ) (v : β)
    (es : List (κ × β)) :
    write (f k) v (es.map fun e => (f e.1, e.2)) = (write k v es).map fun e => (f e.1, e.2) := by
  induction es with
  | nil => rfl
  | cons e es ih =>
    simp only [List.map_cons, write, hf, ih]
    split <;> rfl

/-- A map that keeps which keys are equal commutes with writing entries. -/
theorem entries_ofList_map {α : Type} [BEq α] {f : κ → α} (hf : ∀ a b, (f a == f b) = (a == b))
    (es : List (κ × β)) :
    (ofList (es.map fun e => (f e.1, e.2))).entries = (ofList es).entries.map fun e => (f e.1, e.2) := by
  have hall : ∀ (t : Table κ β) (u : Table α β), u.entries = t.entries.map (fun e => (f e.1, e.2)) →
      (u.insertAll (es.map fun e => (f e.1, e.2))).entries =
        (t.insertAll es).entries.map fun e => (f e.1, e.2) := by
    induction es with
    | nil => exact fun t u h => h
    | cons e es ih =>
      intro t u h
      have hwrite := write_map hf e.1 e.2 t.entries
      rw [← h] at hwrite
      exact ih (t.insert e.1 e.2) (u.insert (f e.1) e.2) hwrite
  exact hall empty empty rfl

/-! ### Rows that are computed from their keys -/

section

variable {α : Type} [BEq α] [LawfulBEq α] {g : α → κ} (hg : ∀ a b, (g a == g b) = (a == b)) (f : α → β)

include hg

theorem write_row {k : α} {ls : List α} (h : k ∈ ls) :
    write (g k) (f k) (ls.map fun l => (g l, f l)) = ls.map fun l => (g l, f l) := by
  induction ls with
  | nil => cases h
  | cons l ls ih =>
    by_cases hl : (l == k) = true
    · obtain rfl := eq_of_beq hl
      simp [write, hg]
    · have hls : k ∈ ls := (List.mem_cons.1 h).resolve_left fun e => hl (by simp [e])
      simp only [List.map_cons, write, hg, hl, Bool.false_eq_true, if_false, ih hls]

theorem entries_insert_row {t : Table κ β} {s : Distinct α} (h : t.entries = s.toList.map fun l => (g l, f l))
    (k : α) : (t.insert (g k) (f k)).entries = (s.add k).toList.map fun l => (g l, f l) := by
  show write (g k) (f k) t.entries = _
  rw [h, Distinct.add]
  split
  · rename_i hk
    obtain ⟨a, ha, hak⟩ := List.any_eq_true.1 hk
    exact write_row hg f (eq_of_beq hak ▸ ha)
  · rename_i hk
    have hfresh : (s.toList.map fun l => (g l, f l)).any (·.1 == g k) = false := by
      rw [List.any_map]
      simp only [Function.comp_def, hg]
      exact Bool.eq_false_iff.2 hk
    rw [write_of_fresh hfresh, List.map_append, List.map_singleton]

/-- A key that is written again gets the value it had. -/
theorem entries_ofRows (ks : List α) :
    (ofList (ks.map fun k => (g k, f k))).entries = (dedup ks).map fun k => (g k, f k) := by
  have hall : ∀ (t : Table κ β) (s : Distinct α), t.entries = s.toList.map (fun l => (g l, f l)) →
      (t.insertAll (ks.map fun k => (g k, f k))).entries = (s.addAll ks).toList.map fun l => (g l, f l) := by
    induction ks with
    | nil => exact fun t s h => h
    | cons k ks ih => exact fun t s h => ih (t.insert (g k) (f k)) (s.add k) (entries_insert_row hg f h k)
  exact hall empty Distinct.empty rfl

end

/-! ### Looking up -/

section

variable {k' : κ} (hr : ∀ y, (y == k') = true ↔ y = k') (hl : ∀ y, (k' == y) = true ↔ y = k')

include hr hl

theorem find?_write_of (k : κ) (v : β) (es : List (κ × β)) :
    ((write k v es).find? (·.1 == k')).map (·.2) =
      if k == k' then some v else (es.find? (·.1 == k')).map (·.2) := by
  induction es with
  | nil =>
    by_cases hk : (k == k') = true
    · simp [write, hk]
    · simp [write, hk]
  | cons e es ih =>
    by_cases he : (e.1 == k) = true
    · by_cases hk : (e.1 == k') = true
      · have hsame : k = k' := (hl k).1 ((hr e.1).1 hk ▸ he)
        simp [write, he, hk, (hr k).2 hsame]
      · have hne : (k == k') = false := Bool.eq_false_iff.2 fun h => hk ((hr k).1 h ▸ he)
        simp [write, he, hk, hne]
    · rw [write, if_neg he]
      by_cases hk : (e.1 == k') = true
      · have hne : (k == k') = false := by
          refine Bool.eq_false_iff.2 fun h => he ?_
          rw [(hr e.1).1 hk]
          exact (hl k).2 ((hr k).1 h)
        simp [hk, hne]
      · simp only [List.find?_cons, hk]
        exact ih

theorem get?_insert_of (t : Table κ β) (k : κ) (v : β) :
    (t.insert k v).get? k' = if k == k' then some v else t.get? k' :=
  find?_write_of hr hl k v t.entries

/-- A value that is computed from its key is the same however often it is written. -/
theorem get?_ofRows (f : κ → β) {ks : List κ} (h : k' ∈ ks) :
    (ofList (ks.map fun k => (k, f k))).get? k' = some (f k') := by
  have hall : ∀ t : Table κ β, k' ∈ ks ∨ t.get? k' = some (f k') →
      (t.insertAll (ks.map fun k => (k, f k))).get? k' = some (f k') := by
    clear h
    induction ks with
    | nil => exact fun t h => h.resolve_left (by simp)
    | cons k ks ih =>
      intro t h
      refine ih (t.insert k (f k)) ?_
      rw [get?_insert_of hr hl]
      by_cases hk : k = k'
      · rw [if_pos ((hr k).2 hk), hk]
        exact .inr rfl
      · rw [if_neg fun e => hk ((hr k).1 e)]
        exact h.imp (fun hmem => (List.mem_cons.1 hmem).resolve_left fun e => hk e.symm) id
  exact hall empty (.inl h)

end

theorem get?_insert [LawfulBEq κ] (t : Table κ β) (k : κ) (v : β) (k' : κ) :
    (t.insert k v).get? k' = if k == k' then some v else t.get? k' :=
  get?_insert_of (fun _ => beq_iff_eq) (fun _ => beq_iff_eq.trans eq_comm) t k v

/-- Of two tables written one over the other, the second one counts. -/
theorem get?_insertAll [LawfulBEq κ] (t u : Table κ β) (k : κ) :
    (t.insertAll u.entries).get? k = (u.get? k).or (t.get? k) := by
  obtain ⟨es, hes⟩ := u
  show (t.insertAll es).get? k = ((es.find? (·.1 == k)).map (·.2)).or (t.get? k)
  induction es generalizing t with
  | nil => rfl
  | cons e es ih =>
    obtain ⟨hfirst, hrest⟩ := List.pairwise_cons.1 hes
    have hmore : (t.insertAll (e :: es)).get? k = ((t.insert e.1 e.2).insertAll es).get? k := rfl
    rw [hmore, ih (t.insert e.1 e.2) hrest, get?_insert]
    by_cases he : (e.1 == k) = true
    · -- the key is not written again
      have hnone : es.find? (·.1 == k) = none := by
        refine List.find?_eq_none.2 fun x hx hxk => ?_
        have hne : (e.1 == x.1) = false := hfirst x.1 (List.mem_map_of_mem hx)
        rw [eq_of_beq he, BEq.comm, hxk] at hne
        cases hne
      simp [hnone, he]
    · simp [he]

theorem get?_of_mem [LawfulBEq κ] {t : Table κ β} {e : κ × β} (h : e ∈ t.entries) : t.get? e.1 = some e.2 := by
  obtain ⟨es, hes⟩ := t
  show (es.find? (·.1 == e.1)).map (·.2) = some e.2
  have he : e ∈ es := h
  clear h
  induction es with
  | nil => cases he
  | cons x es ih =>
    obtain ⟨hfirst, hrest⟩ := List.pairwise_cons.1 hes
    rcases List.mem_cons.1 he with rfl | he
    · simp
    · have hne : ¬ (x.1 == e.1) = true := Bool.eq_false_iff.1 (hfirst e.1 (List.mem_map_of_mem he))
      simp only [List.find?_cons, hne]
      exact ih hrest he

theorem mem_of_get? [LawfulBEq κ] {t : Table κ β} {k : κ} {v : β} (h : t.get? k = some v) : (k, v) ∈ t.entries := by
  obtain ⟨e, he, rfl⟩ := Option.map_eq_some_iff.1 h
  have hk : e.1 = k := eq_of_beq (List.find?_some (p := fun x : κ × β => x.1 == k) he)
  rw [← hk]
  exact List.mem_of_find?_eq_some he

theorem eq_of_mem [LawfulBEq κ] {t : Table κ β} {d e : κ × β} (hd : d ∈ t.entries) (he : e ∈ t.entries)
    (h : d.1 = e.1) : d = e := by
  have hvalue : some d.2 = some e.2 := by rw [← get?_of_mem hd, ← get?_of_mem he, h]
  exact Prod.ext h (Option.some.inj hvalue)

theorem mem_keys_iff [LawfulBEq κ] {t : Table κ β} {k : κ} : k ∈ t.keys ↔ (t.get? k).isSome = true := by
  constructor
  · intro hk
    obtain ⟨e, he, rfl⟩ := List.mem_map.1 hk
    rw [get?_of_mem he]
    rfl
  · intro hk
    obtain ⟨v, hv⟩ := Option.isSome_iff_exists.1 hk
    exact List.mem_map_of_mem (f := (·.1)) (mem_of_get? hv)

theorem get?_eq_none [LawfulBEq κ] {t : Table κ β} {k : κ} (h : k ∉ t.keys) : t.get? k = none :=
  Option.not_isSome_iff_eq_none.1 (mt mem_keys_iff.2 h)

theorem keys_nodup [LawfulBEq κ] (t : Table κ β) : t.keys.Nodup := by
  refine t.distinct.imp fun h e => ?_
  rw [e, beq_self_eq_true] at h
  cases h

/-! ### The order of keys -/

def keySet (t : Table κ β) : Distinct κ := ⟨t.keys, t.distinct⟩

theorem keySet_insert (t : Table κ β) (k : κ) (v : β) : (t.insert k v).keySet = t.keySet.add k := by
  have hany : t.keySet.contains k = t.entries.any (·.1 == k) := by
    show (t.entries.map (·.1)).any (· == k) = _
    rw [List.any_map]
    rfl
  have hkeys : (t.insert k v).keys = (t.keySet.add k).toList := by
    show (write k v t.entries).map (·.1) = _
    rw [map_fst_write, Distinct.add]
    by_cases h : t.entries.any (·.1 == k) = true
    · rw [if_pos h, dif_pos (hany.trans h)]
      rfl
    · rw [if_neg h, dif_neg (by rwa [hany])]
      rfl
  exact Distinct.ext hkeys

/-- Keys stand in the order in which they were first written. -/
theorem keySet_insertAll (t : Table κ β) (es : List (κ × β)) :
    (t.insertAll es).keySet = t.keySet.addAll (es.map (·.1)) := by
  induction es generalizing t with
  | nil => rfl
  | cons e es ih =>
    have hmore : (t.insertAll (e :: es)).keySet = ((t.insert e.1 e.2).insertAll es).keySet := rfl
    rw [hmore, ih, keySet_insert]
    rfl

/-- A table is its keys, in their order, and what it gives for them. -/
theorem ext_get? [LawfulBEq κ] {t u : Table κ β} (hkeys : t.keySet = u.keySet) (hget : ∀ k, t.get? k = u.get? k) :
    t = u := by
  have hrows : ∀ t : Table κ β, t.entries.map (fun e => (e.1, some e.2)) = t.keys.map fun k => (k, t.get? k) := by
    intro t
    rw [keys, List.map_map]
    exact List.map_congr_left fun e he => by rw [Function.comp_apply, get?_of_mem he]
  have hsame : t.keys = u.keys := congrArg Distinct.toList hkeys
  have hentries : t.entries.map (fun e => (e.1, some e.2)) = u.entries.map fun e => (e.1, some e.2) := by
    rw [hrows, hrows, hsame]
    exact List.map_congr_left fun k _ => by rw [hget]
  obtain ⟨es, _⟩ := t
  obtain ⟨fs, _⟩ := u
  obtain rfl : es = fs := (List.map_inj_right fun e f h => by simpa [Prod.ext_iff] using h).1 hentries
  rfl

theorem insertAll_insert [LawfulBEq κ] (t u : Table κ β) (k : κ) (v : β) :
    t.insertAll (u.insert k v).entries = (t.insertAll u.entries).insert k v := by
  refine ext_get? ?_ fun k' => ?_
  · have hkeys : (u.insert k v).entries.map (·.1) = (u.keySet.add k).toList :=
      congrArg Distinct.toList (keySet_insert u k v)
    rw [keySet_insertAll, hkeys, Distinct.addAll_add, keySet_insert, keySet_insertAll]
    rfl
  · rw [get?_insertAll, get?_insert, get?_insert, get?_insertAll]
    split <;> rfl

theorem insertAll_insertAll [LawfulBEq κ] (t u : Table κ β) (es : List (κ × β)) :
    t.insertAll (u.insertAll es).entries = (t.insertAll u.entries).insertAll es := by
  induction es generalizing u with
  | nil => rfl
  | cons e es ih =>
    have hstep : t.insertAll ((u.insert e.1 e.2).insertAll es).entries =
        (t.insertAll (u.insert e.1 e.2).entries).insertAll es := ih (u.insert e.1 e.2)
    rw [insertAll_insert] at hstep
    exact hstep

theorem get?_insertAll_list [LawfulBEq κ] (t : Table κ β) (es : List (κ × β)) (k : κ) :
    (t.insertAll es).get? k = ((es.reverse.find? (·.1 == k)).map (·.2)).or (t.get? k) := by
  induction es generalizing t with
  | nil => rfl
  | cons e es ih =>
    have hmore : (t.insertAll (e :: es)).get? k = ((t.insert e.1 e.2).insertAll es).get? k := rfl
    rw [hmore, ih, get?_insert, List.reverse_cons, List.find?_append, List.find?_singleton]
    cases es.reverse.find? (·.1 == k) with
    | some f => rfl
    | none => by_cases he : (e.1 == k) = true <;> simp [he]

/-- What was written last for a key counts. -/
theorem get?_ofList [LawfulBEq κ] (es : List (κ × β)) (k : κ) :
    (ofList es).get? k = (es.reverse.find? (·.1 == k)).map (·.2) :=
  (get?_insertAll_list empty es k).trans Option.or_none

theorem keys_ofList (es : List (κ × β)) : (ofList es).keys = dedup (es.map (·.1)) :=
  congrArg Distinct.toList (keySet_insertAll empty es)

/-- An entry is what was written for its key with nothing written for it afterwards. -/
theorem mem_ofList_iff [LawfulBEq κ] {es : List (κ × β)} {k : κ} {v : β} :
    (k, v) ∈ (ofList es).entries ↔ ∃ front back, es = front ++ (k, v) :: back ∧ ∀ e ∈ back, e.1 ≠ k := by
  have hget : (k, v) ∈ (ofList es).entries ↔ (ofList es).get? k = some v := ⟨get?_of_mem, mem_of_get?⟩
  rw [hget, get?_ofList]
  constructor
  · intro h
    obtain ⟨e, hfind, rfl⟩ := Option.map_eq_some_iff.1 h
    obtain ⟨hkey, back, front, hsplit, hback⟩ := List.find?_eq_some_iff_append.1 hfind
    obtain rfl := eq_of_beq hkey
    refine ⟨front.reverse, back.reverse, by simpa using congrArg List.reverse hsplit, fun a ha => ?_⟩
    simpa using hback a (List.mem_reverse.1 ha)
  · rintro ⟨front, back, rfl, hback⟩
    refine Option.map_eq_some_iff.2 ⟨(k, v), List.find?_eq_some_iff_append.2 ⟨beq_self_eq_true k, ?_⟩, rfl⟩
    refine ⟨back.reverse, front.reverse, by simp, fun a ha => ?_⟩
    simpa using hback a (List.mem_reverse.1 ha)

theorem get?_foldl_insertAll [LawfulBEq κ] {α : Type} (f : α → Table κ β) (xs : List α) (t : Table κ β) (k : κ) :
    (xs.foldl (fun t x => t.insertAll (f x).entries) t).get? k =
      (xs.reverse.findSome? fun x => (f x).get? k).or (t.get? k) := by
  induction xs generalizing t with
  | nil => rfl
  | cons x xs ih =>
    rw [List.foldl_cons, ih, get?_insertAll, List.reverse_cons, List.findSome?_append, Option.or_assoc]
    simp

theorem keySet_foldl_insertAll {α : Type} (f : α → Table κ β) (xs : List α) (t : Table κ β) :
    (xs.foldl (fun t x => t.insertAll (f x).entries) t).keySet = t.keySet.addAll (xs.flatMap fun x => (f x).keys) := by
  induction xs generalizing t with
  | nil => rfl
  | cons x xs ih =>
    rw [List.foldl_cons, ih, keySet_insertAll, List.flatMap_cons, Distinct.addAll_append]
    rfl

theorem get?_map {γ : Type} {t : Table κ β} {u : Table κ γ} (f : β → γ)
    (h : u.entries = t.entries.map fun e => (e.1, f e.2)) (k : κ) : u.get? k = (t.get? k).map f := by
  rw [get?, get?, h, List.find?_map, Option.map_map, Option.map_map]
  rfl

end Table

end MessageCatalog
