import PlanFeatures.Proofs.Grammar.NormalForm

/-!
# The structural order is transitive

A comparison that goes through several criteria is transitive when each criterion is, and
the later ones need to be so only among things that the earlier ones do not tell apart.
Trees with the same rule and symbols at their roots have the same number of operands, so
the structural order is such a comparison, with the orders of the operands as its later
criteria.
-/

namespace PlanFeatures

open Std

/-! ## Three comparisons that fit together -/

/-- What the comparisons of `a` with `b` and of `b` with `c` say about `a` and `c`. -/
structure Joins (ab bc ac : Ordering) : Prop where
  left : ab = .eq → ac = bc
  right : bc = .eq → ac = ab
  same : ab = bc → ac = ab

theorem joins_of_trans {α : Type} (cmp : α → α → Ordering) [TransCmp cmp] (a b c : α) :
    Joins (cmp a b) (cmp b c) (cmp a c) where
  left equal := TransCmp.congr_left equal
  right equal := (TransCmp.congr_right equal).symm
  same agree := by
    cases first : cmp a b with
    | lt => exact TransCmp.lt_trans first (agree ▸ first)
    | eq => exact TransCmp.eq_trans first (agree ▸ first)
    | gt => exact TransCmp.gt_trans first (agree ▸ first)

namespace Joins
variable {ab bc ac ab' bc' ac' : Ordering}

/-- The second criterion counts only where the first one finds no difference. -/
theorem thenBy (first : Joins ab bc ac) (second : ab = .eq → bc = .eq → Joins ab' bc' ac') :
    Joins (ab.then ab') (bc.then bc') (ac.then ac') := by
  obtain ⟨left, right, same⟩ := first
  cases ab with
  | eq =>
    cases left rfl
    cases bc with
    | eq => exact second rfl rfl
    | lt | gt => constructor <;> simp +contextual
  | lt | gt =>
    cases bc with
    | eq => cases right rfl; constructor <;> simp
    | lt | gt => constructor <;> simp_all

theorem isLE (joins : Joins ab bc ac) (first : ab.isLE) (second : bc.isLE) : ac.isLE := by
  cases ab with
  | gt => cases first
  | eq => rw [joins.left rfl]; exact second
  | lt =>
    cases bc with
    | gt => cases second
    | eq => rw [joins.right rfl]; rfl
    | lt => rw [joins.same rfl]; rfl

end Joins

/-! ## Labels -/

theorem Rule.compare_joins (r q p : Rule) : Joins (compare r q) (compare q p) (compare r p) :=
  joins_of_trans (compare : Nat → Nat → Ordering) _ _ _

theorem Kind.compare_joins (k l m : Kind) : Joins (compare k l) (compare l m) (compare k m) :=
  joins_of_trans (compare : Nat → Nat → Ordering) _ _ _

theorem Store.compareSymbols_joins (as bs cs : List Nat) :
    Joins (compareSymbols as bs) (compareSymbols bs cs) (compareSymbols as cs) := by
  induction as generalizing bs cs with
  | nil => cases bs <;> cases cs <;> constructor <;> simp [compareSymbols]
  | cons a as ih =>
    cases bs with
    | nil => cases cs <;> constructor <;> simp [compareSymbols]
    | cons b bs =>
      cases cs with
      | nil =>
        constructor <;> simp only [compareSymbols]
        · intro _; trivial
        · intro agree; cases agree
        · intro agree; exact agree.symm
      | cons c cs =>
        apply (joins_of_trans (compare : Nat → Nat → Ordering) a b c).thenBy
        intro _ _
        exact ih bs cs

namespace Expr

/-! ## Trees -/

theorem compareRoots_joins (x y z : Expr) :
    Joins (compareRoots x y) (compareRoots y z) (compareRoots x z) := by
  apply (Rule.compare_joins x.rule y.rule z.rule).thenBy
  intro _ _
  exact Store.compareSymbols_joins x.symbols y.symbols z.symbols

/-- Compares operands from left to right, first by kind.  It is asked for trees with the same
number of operands only. -/
def compareOperands : Expr → Expr → Ordering
  | unary _ a, unary _ b => (compare a.kind b.kind).then (order a b)
  | binary _ a b, binary _ c d =>
    ((compare a.kind c.kind).then (order a c)).then ((compare b.kind d.kind).then (order b d))
  | distance a r b, distance c s d =>
    ((compare a.kind c.kind).then (order a c)).then
      (((compare r.kind s.kind).then (order r s)).then ((compare b.kind d.kind).then (order b d)))
  | _, _ => .eq

theorem order_eq (x y : Expr) : order x y = (compareRoots x y).then (compareOperands x y) := by
  cases x <;> cases y <;> simp [order, compareOperands]

/-- Trees that agree at their roots have the same number of operands. -/
theorem joins_of_operands {x y z : Expr}
    (operands : x.rule.operandCount = y.rule.operandCount →
      y.rule.operandCount = z.rule.operandCount →
      Joins (compareOperands x y) (compareOperands y z) (compareOperands x z)) :
    Joins (order x y) (order y z) (order x z) := by
  have count : ∀ {a b : Expr}, compareRoots a b = .eq →
      a.rule.operandCount = b.rule.operandCount := fun roots =>
    congrArg Rule.operandCount (compareRoots_eq_iff.mp roots).1
  simp only [order_eq]
  apply (compareRoots_joins x y z).thenBy
  intro first second
  exact operands (count first) (count second)

theorem operand_joins {a b c : Expr} (joins : Joins (order a b) (order b c) (order a c)) :
    Joins ((compare a.kind b.kind).then (order a b)) ((compare b.kind c.kind).then (order b c))
      ((compare a.kind c.kind).then (order a c)) := by
  apply (Kind.compare_joins a.kind b.kind c.kind).thenBy
  intro _ _
  exact joins

theorem order_joins (x y z : Expr) : Joins (order x y) (order y z) (order x z) := by
  induction x generalizing y z with
  | leaf l =>
    apply joins_of_operands
    intro left right
    cases y <;> simp [operandCount_rule] at left
    cases z <;> simp [operandCount_rule] at right
    exact ⟨fun _ => rfl, fun _ => rfl, fun _ => rfl⟩
  | unary op a iha =>
    apply joins_of_operands
    intro left right
    cases y <;> simp [operandCount_rule] at left
    cases z <;> simp [operandCount_rule] at right
    exact operand_joins (iha ..)
  | binary op a b iha ihb =>
    apply joins_of_operands
    intro left right
    cases y <;> simp [operandCount_rule] at left
    cases z <;> simp [operandCount_rule] at right
    apply (operand_joins (iha ..)).thenBy
    intro _ _
    exact operand_joins (ihb ..)
  | distance a r b iha ihr ihb =>
    apply joins_of_operands
    intro left right
    cases y <;> simp [operandCount_rule] at left
    cases z <;> simp [operandCount_rule] at right
    apply (operand_joins (iha ..)).thenBy
    intro _ _
    apply (operand_joins (ihr ..)).thenBy
    intro _ _
    exact operand_joins (ihb ..)

instance : TransCmp order where
  eq_swap := (order_swap _ _).symm
  isLE_trans := (order_joins _ _ _).isLE

end Expr
end PlanFeatures
