import PlanFeatures.Grammar.Node

/-!
# Expressions as trees

The tree of an expression, apart from any store.  Its complexity is the number of
rule applications in it.  Trees that differ in nothing but the order of operands
whose order does not matter are alike.
-/

namespace PlanFeatures

inductive Expr where
  | leaf (leaf : Leaf)
  | unary (op : UnaryOp) (operand : Expr)
  | binary (op : BinaryOp) (left right : Expr)
  | distance (source role target : Expr)
deriving DecidableEq, Repr

namespace Expr

/-- The rule that was applied last. -/
def rule : Expr → Rule
  | leaf l => l.rule
  | unary op _ => op.rule
  | binary op _ _ => op.rule
  | distance .. => .numericalDistance

def kind (e : Expr) : Kind := e.rule.kind

/-- Number of rule applications. -/
def complexity : Expr → Nat
  | leaf _ => 1
  | unary _ a => 1 + a.complexity
  | binary _ a b => 1 + (a.complexity + b.complexity)
  | distance a r b => 1 + (a.complexity + (r.complexity + b.complexity))

/-- Whether every operator has operands of the kinds that it takes. -/
def WellKinded : Expr → Prop
  | leaf _ => True
  | unary op a => a.kind = op.operand ∧ a.WellKinded
  | binary op a b => a.kind = op.left ∧ b.kind = op.right ∧ a.WellKinded ∧ b.WellKinded
  | distance a r b =>
    a.kind = .concept ∧ r.kind = .role ∧ b.kind = .concept ∧
      a.WellKinded ∧ r.WellKinded ∧ b.WellKinded

/-- Equality up to the order of operands whose order does not matter, at any
depth. -/
inductive Alike : Expr → Expr → Prop where
  | leaf (l : Leaf) : Alike (leaf l) (leaf l)
  | unary (op : UnaryOp) {a b : Expr} (h : Alike a b) : Alike (unary op a) (unary op b)
  | binary (op : BinaryOp) {a b c d : Expr} (left : Alike a c) (right : Alike b d) :
      Alike (binary op a b) (binary op c d)
  | swapped (op : BinaryOp) (h : op.rule.isCommutative = true) {a b c d : Expr}
      (left : Alike a d) (right : Alike b c) : Alike (binary op a b) (binary op c d)
  | distance {a r b c s d : Expr} (source : Alike a c) (role : Alike r s) (target : Alike b d) :
      Alike (distance a r b) (distance c s d)

theorem complexity_pos (e : Expr) : 0 < e.complexity := by
  cases e <;> simp only [complexity] <;> omega

theorem Alike.refl : ∀ e : Expr, Alike e e
  | .leaf l => .leaf l
  | .unary op a => .unary op (refl a)
  | .binary op a b => .binary op (refl a) (refl b)
  | .distance a r b => .distance (refl a) (refl r) (refl b)

theorem Alike.complexity_eq {a b : Expr} (h : Alike a b) : a.complexity = b.complexity := by
  induction h <;> simp_all [Expr.complexity, Nat.add_comm]

theorem Alike.rule_eq {a b : Expr} (h : Alike a b) : a.rule = b.rule := by
  cases h <;> rfl

end Expr
end PlanFeatures
