import PlanFeatures.Grammar.Expr
import PlanFeatures.Domain.Vocabulary

/-!
# Expressions over a vocabulary

Leaves name predicates, constants and positions.  An expression is over a
vocabulary when all that it names is there; a projection has one of the positions
0 and 1.
-/

namespace PlanFeatures

/-- What the leaf names is in the vocabulary. -/
def Leaf.Declared (v : Vocabulary) : Leaf → Prop
  | conceptPrimitive p i => ∃ predicate, v.predicate? p = some predicate ∧ i < predicate.arity
  | rolePrimitive p i j =>
    ∃ predicate, v.predicate? p = some predicate ∧ i < predicate.arity ∧ j < predicate.arity
  | booleanNullary p => ∃ predicate, v.predicate? p = some predicate ∧ predicate.arity = 0
  | conceptOneOf k => ∃ name, v.constant? k = some name
  | conceptBot | conceptTop | roleTop => True

/-- Roles have the positions 0 and 1 only. -/
def UnaryOp.Declared : UnaryOp → Prop
  | conceptProjection i => i ≤ 1
  | _ => True

theorem UnaryOp.declared_of_mem_plain {op : UnaryOp} (plain : op ∈ UnaryOp.plain) :
    op.Declared := by
  cases op with
  | conceptProjection i => simp [UnaryOp.plain] at plain
  | _ => trivial

theorem UnaryOp.mem_plain {op : UnaryOp} (other : op.rule ≠ .conceptProjection) :
    op ∈ UnaryOp.plain := by
  cases op with
  | conceptProjection i => exact absurd rfl other
  | _ => decide

def Node.Declared (v : Vocabulary) : Node → Prop
  | leaf l => l.Declared v
  | unary op _ => op.Declared
  | binary .. | distance .. => True

namespace Expr

def Declared (v : Vocabulary) : Expr → Prop
  | leaf l => l.Declared v
  | unary op a => op.Declared ∧ a.Declared v
  | binary _ a b => a.Declared v ∧ b.Declared v
  | distance a r b => a.Declared v ∧ r.Declared v ∧ b.Declared v

/-- The expressions that a run of any kind can be about: all operands are of the
kinds that the operators take, and all names are in the vocabulary. -/
structure Over (v : Vocabulary) (e : Expr) : Prop where
  wellKinded : e.WellKinded
  declared : e.Declared v

/-- The expression and all that it is made of. -/
def parts : Expr → List Expr
  | leaf l => [leaf l]
  | unary op a => unary op a :: a.parts
  | binary op a b => binary op a b :: (a.parts ++ b.parts)
  | distance a r b => distance a r b :: (a.parts ++ (r.parts ++ b.parts))

theorem self_mem_parts (e : Expr) : e ∈ e.parts := by
  cases e <;> exact List.mem_cons_self

end Expr
end PlanFeatures
