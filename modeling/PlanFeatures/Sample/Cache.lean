import Std.Data.TreeMap

/-!
# Counting caches

A cache maps the index of an expression to a value computed for it.  Entries are
never dropped.  A look-up with `get` counts as a hit or as a miss, one with
`peek?` does not count.
-/

namespace PlanFeatures

structure Cache (α : Type) where
  entries : Std.TreeMap Nat α
  hits : Nat
  misses : Nat

namespace Cache
variable {α : Type}

def empty : Cache α := ⟨∅, 0, 0⟩

instance : Inhabited (Cache α) := ⟨empty⟩

def size (c : Cache α) : Nat := c.entries.size

def isEmpty (c : Cache α) : Bool := c.entries.isEmpty

def peek? (c : Cache α) (i : Nat) : Option α := c.entries[i]?

def get (c : Cache α) (i : Nat) : Option α × Cache α :=
  match c.peek? i with
  | some a => (some a, { c with hits := c.hits + 1 })
  | none => (none, { c with misses := c.misses + 1 })

def insert (c : Cache α) (i : Nat) (a : α) : Cache α :=
  { c with entries := c.entries.insert i a }

theorem peek?_insert (c : Cache α) (i j : Nat) (a : α) :
    (c.insert i a).peek? j = if i = j then some a else c.peek? j := by
  by_cases h : i = j <;> simp [insert, peek?, Std.TreeMap.getElem?_insert, h]

theorem size_insert {c : Cache α} {i : Nat} (absent : c.peek? i = none) (a : α) :
    (c.insert i a).size = c.size + 1 := by
  have new : c.entries.contains i = false := by
    rw [← Std.TreeMap.isSome_getElem?_eq_contains]
    simp only [peek?] at absent
    rw [absent, Option.isSome_none]
  rw [insert, size, Std.TreeMap.size_insert, if_neg (by rw [new]; decide)]
  rfl

theorem peek?_get (c : Cache α) (i j : Nat) : (c.get i).2.peek? j = c.peek? j := by
  unfold get
  split <;> rfl

end Cache
end PlanFeatures
