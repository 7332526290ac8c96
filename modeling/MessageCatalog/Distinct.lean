/-
  MessageCatalog.Distinct — lists without repetitions, in order of first occurrence.
-/

namespace MessageCatalog

structure Distinct (α : Type) [BEq α] where
  toList : List α := []
  distinct : toList.Pairwise (fun a b => (a == b) = false) := by simp

namespace Distinct

variable {α : Type} [BEq α]

def empty : Distinct α := {}

instance : Inhabited (Distinct α) := ⟨empty⟩

def contains (s : Distinct α) (x : α) : Bool := s.toList.any (· == x)

/-- At the end, unless an equal item is there already. -/
def add (s : Distinct α) (x : α) : Distinct α :=
  if h : s.contains x = true then s
  else ⟨s.toList ++ [x], by
    refine List.pairwise_append.2 ⟨s.distinct, List.pairwise_singleton _ _, fun a ha b hb => ?_⟩
    rw [List.mem_singleton.1 hb]
    exact Bool.eq_false_iff.2 fun e => h (List.any_eq_true.2 ⟨a, ha, e⟩)⟩

def addAll (s : Distinct α) (xs : List α) : Distinct α := xs.foldl add s

def ofList (xs : List α) : Distinct α := empty.addAll xs

def size (s : Distinct α) : Nat := s.toList.length

end Distinct

/-- The list without repetitions: first occurrences only. -/
def dedup {α : Type} [BEq α] (xs : List α) : List α := (Distinct.ofList xs).toList

end MessageCatalog
