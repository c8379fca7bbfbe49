import PlanFeatures.Meaning.Extension
import PlanFeatures.Proofs.Meaning.Distances
import PlanFeatures.Proofs.Meaning.Paths
import PlanFeatures.Domain.State
import PlanFeatures.Grammar.Expr

/-!
# The meaning of expressions

A state is an interpretation of the vocabulary: predicates hold of the objects of its true
atoms, constants name objects.  The meaning of an expression is put together from it in the
language of sets, with no bits and no algorithms.
-/

namespace PlanFeatures

/-- What an expression of each kind means among `n` objects. -/
inductive Meaning (n : Nat) where
  | concept (members : Set (Fin n))
  | role (relates : Fin n → Fin n → Prop)
  | boolean (holds : Prop)
  | numerical (value : Nat)

namespace Meaning
variable {n : Nat}

def set : Meaning n → Set (Fin n)
  | concept members => members
  | _ => ∅

def relates : Meaning n → Fin n → Fin n → Prop
  | role relates => relates
  | _ => fun _ _ => False

end Meaning

/-- What an extension stands for. -/
def Extension.meaning {n : Nat} : Extension n → Meaning n
  | concept set => .concept set.toSet
  | role relation => .role relation.Holds
  | boolean value => .boolean (value = true)
  | numerical value => .numerical value.toNat

/-! ## Leaves -/

namespace State
variable (s : State)

/-- The predicate holds of the objects: such an atom is true, be it dynamic or static. -/
def Holds (p : PredicateId) (objects : List ObjectId) : Prop :=
  ∃ a atom, s.problem.atom? a = some atom ∧ s.contains a = true ∧ atom.predicate = p ∧
    atom.objects = objects

/-- The object has the name of the constant. -/
def Named (k : ConstantId) (o : Fin s.objectCount) : Prop :=
  ∃ name, s.problem.vocabulary.constant? k = some name ∧ s.problem.objectName? ⟨o⟩ = some name

end State

def Leaf.meaning (s : State) : Leaf → Meaning s.objectCount
  | conceptPrimitive p i => .concept {x | ∃ objects, s.Holds p objects ∧ objects[i]? = some ⟨x⟩}
  | conceptBot => .concept ∅
  | conceptTop => .concept Set.univ
  | conceptOneOf k => .concept {x | s.Named k x}
  | rolePrimitive p i j => .role fun x y =>
    ∃ objects, s.Holds p objects ∧ objects[i]? = some ⟨x⟩ ∧ objects[j]? = some ⟨y⟩
  | roleTop => .role fun _ _ => True
  | booleanNullary p => .boolean (s.Holds p [])

/-! ## Operators -/

/-- A number as the word that the program keeps. -/
def wrapped (k : Nat) : Nat := k % UInt32.size

noncomputable def UnaryOp.meaning {n : Nat} (op : UnaryOp) (m : Meaning n) : Meaning n :=
  match op with
  | conceptNot => .concept m.setᶜ
  | conceptProjection position =>
    if position = 0 then .concept {x | ∃ y, m.relates x y} else .concept {y | ∃ x, m.relates x y}
  | roleInverse => .role fun x y => m.relates y x
  | roleNot => .role fun x y => ¬ m.relates x y
  | roleIdentity => .role fun x y => x = y ∧ x ∈ m.set
  | roleClosure => .role (Relation.TransGen m.relates)
  | roleReflexiveClosure => .role fun x y => Relation.TransGen m.relates x y ∨ x = y
  | emptyConcept => .boolean (m.set = ∅)
  | emptyRole => .boolean (∀ x y, ¬ m.relates x y)
  | countConcept => .numerical (wrapped m.set.ncard)
  | countRole => .numerical (wrapped {p : Fin n × Fin n | m.relates p.1 p.2}.ncard)

def BinaryOp.meaning {n : Nat} (op : BinaryOp) (l r : Meaning n) : Meaning n :=
  match op with
  | conceptAnd => .concept (l.set ∩ r.set)
  | conceptOr => .concept (l.set ∪ r.set)
  | conceptDiff => .concept (l.set \ r.set)
  | conceptSome => .concept {x | ∃ y, l.relates x y ∧ y ∈ r.set}
  | conceptAll => .concept {x | ∀ y, l.relates x y → y ∈ r.set}
  | conceptEqual => .concept {x | ∀ y, l.relates x y ↔ r.relates x y}
  | conceptSubset => .concept {x | ∀ y, l.relates x y → r.relates x y}
  | roleAnd => .role fun x y => l.relates x y ∧ r.relates x y
  | roleOr => .role fun x y => l.relates x y ∨ r.relates x y
  | roleDiff => .role fun x y => l.relates x y ∧ ¬ r.relates x y
  | roleCompose => .role fun x y => ∃ z, l.relates x z ∧ r.relates z y
  | roleRestrict => .role fun x y => l.relates x y ∧ y ∈ r.set
  | roleClosureThrough => .role (Path l.relates r.set)
  | inclusionConcept => .boolean (l.set ⊆ r.set)
  | inclusionRole => .boolean (∀ x y, l.relates x y → r.relates x y)

open Classical in
/-- The length of a shortest walk from one set to another, if there is any. -/
noncomputable def shortest {n : Nat} (source : Set (Fin n)) (relates : Fin n → Fin n → Prop)
    (target : Set (Fin n)) : Nat :=
  if joined : ∃ k, (level relates source k ∩ target).Nonempty then Nat.find joined
  else unreachable.toNat

/-- The meaning of an expression, by recursion on its tree. -/
noncomputable def Expr.meaning (s : State) : Expr → Meaning s.objectCount
  | leaf l => l.meaning s
  | unary op a => op.meaning (a.meaning s)
  | binary op a b => op.meaning (a.meaning s) (b.meaning s)
  | distance a r b =>
    .numerical (shortest (a.meaning s).set (r.meaning s).relates (b.meaning s).set)

end PlanFeatures
