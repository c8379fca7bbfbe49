import PlanFeatures.Grammar.Node

/-!
# Machines

What a run takes from the machine that it is on: buffers, which cannot have any
size, and workers that apply a function to many items side by side.
-/

namespace PlanFeatures

structure Machine where
  /-- The largest number of bytes that a buffer can have, if there is one. -/
  largestBuffer : Option Nat
  /-- Applies a function to the items of a list side by side and collects the
  results. -/
  collect : {α β : Type} → (α → β) → List α → List β

/-- Number of bytes of a node in a buffer. -/
def Node.bytes : Nat := 16

namespace Machine

/-- A machine with buffers of any size, which takes one item after the other. -/
def ideal : Machine := ⟨none, List.map⟩

/-- A machine with addresses of 64 bits, one of them for the sign of a distance. -/
def word64 (collect : {α β : Type} → (α → β) → List α → List β) : Machine :=
  ⟨some (UInt64.size / 2 - 1), collect⟩

/-- Whether a buffer can have a number of bytes. -/
def hasRoom (m : Machine) (bytes : Nat) : Bool := m.largestBuffer.all fun most => bytes ≤ most

/-- What is collected stands in the order of the items. -/
def Ordered (m : Machine) : Prop :=
  ∀ {α β : Type} (f : α → β) (items : List α), m.collect f items = items.map f

theorem ideal_ordered : ideal.Ordered := fun _ _ => rfl

end Machine
end PlanFeatures
