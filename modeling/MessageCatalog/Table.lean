/-
  MessageCatalog.Table — tables in the order in which their keys were first written.

  Writing to a key that is there keeps its place and replaces its value.
-/

import MessageCatalog.Distinct

namespace MessageCatalog

structure Table (κ β : Type) [BEq κ] where
  entries : List (κ × β) := []
  distinct : (entries.map (·.1)).Pairwise (fun a b => (a == b) = false) := by simp

namespace Table

variable {κ β : Type} [BEq κ]

def empty : Table κ β := {}

instance : Inhabited (Table κ β) := ⟨empty⟩

def keys (t : Table κ β) : List κ := t.entries.map (·.1)

def size (t : Table κ β) : Nat := t.entries.length

def isEmpty (t : Table κ β) : Bool := t.entries.isEmpty

def get? (t : Table κ β) (k : κ) : Option β := (t.entries.find? (·.1 == k)).map (·.2)

def contains (t : Table κ β) (k : κ) : Bool := t.entries.any (·.1 == k)

def total {κ β : Type} (f : β → Nat) : List (κ × β) → Nat
  | [] => 0
  | e :: r => f e.2 + total f r

/-- The entries with `v` at `k`: in place, or at the end. -/
def write (k : κ) (v : β) : List (κ × β) → List (κ × β)
  | [] => [(k, v)]
  | e :: r => if e.1 == k then (e.1, v) :: r else e :: write k v r

theorem map_fst_write (k : κ) (v : β) (es : List (κ × β)) :
    (write k v es).map (·.1) =
      if es.any (·.1 == k) then es.map (·.1) else es.map (·.1) ++ [k] := by
  induction es with
  | nil => rfl
  | cons e r ih =>
    by_cases h : (e.1 == k) = true
    · simp [write, h]
    · simp only [write, h, List.any_cons, List.map_cons, Bool.false_or, Bool.false_eq_true, if_false, ih]
      split <;> rfl

def insert (t : Table κ β) (k : κ) (v : β) : Table κ β :=
  ⟨write k v t.entries, by
    rw [map_fst_write]
    split
    · exact t.distinct
    · rename_i h
      refine List.pairwise_append.2 ⟨t.distinct, List.pairwise_singleton _ _, fun a ha b hb => ?_⟩
      obtain ⟨e, he, rfl⟩ := List.mem_map.1 ha
      rw [List.mem_singleton.1 hb]
      exact Bool.eq_false_iff.2 fun q => h (List.any_eq_true.2 ⟨e, he, q⟩)⟩

def insertAll (t : Table κ β) (es : List (κ × β)) : Table κ β := es.foldl (fun t e => t.insert e.1 e.2) t

def ofList (es : List (κ × β)) : Table κ β := empty.insertAll es

/-- The table with `f` applied to the value at `k`, or to `none` if it has none. -/
def alter (t : Table κ β) (k : κ) (f : Option β → β) : Table κ β := t.insert k (f (t.get? k))

end Table

end MessageCatalog
