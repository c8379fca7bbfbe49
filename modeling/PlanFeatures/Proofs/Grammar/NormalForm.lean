import PlanFeatures.Grammar.Expr
import PlanFeatures.Store.Basic

/-!
# Normal forms of expression trees

The structural order of stored expressions is an order of their trees, in which no
store occurs.  A tree is normal when operands whose order does not matter stand in
structural order, at any depth.  The order is antisymmetric up to equality, so
alike trees that are both normal are equal: this is what makes one stored
expression out of all the ways to write it.
-/

namespace PlanFeatures

/-! ## Comparisons of labels -/

theorem Rule.position_injective {r q : Rule} (same : r.position.val = q.position.val) : r = q := by
  have found := Rule.getElem?_position r
  rw [same, Rule.getElem?_position q] at found
  exact (Option.some.inj found).symm

theorem Rule.compare_eq_iff {r q : Rule} : compare r q = .eq ↔ r = q := by
  constructor
  · intro same
    exact Rule.position_injective (Nat.compare_eq_eq.mp same)
  · rintro rfl
    exact Nat.compare_eq_eq.mpr rfl

theorem Rule.compare_swap (r q : Rule) : (compare r q).swap = compare q r :=
  Nat.compare_swap _ _

theorem Kind.compare_eq_iff {k l : Kind} : compare k l = .eq ↔ k = l := by
  cases k <;> cases l <;> decide

theorem Kind.compare_swap (k l : Kind) : (compare k l).swap = compare l k :=
  Nat.compare_swap _ _

namespace Store

theorem compareSymbols_eq_iff {as bs : List Nat} : compareSymbols as bs = .eq ↔ as = bs := by
  induction as generalizing bs with
  | nil => cases bs <;> simp [compareSymbols]
  | cons a as ih => cases bs <;> simp [compareSymbols, Ordering.then_eq_eq, ih]

theorem compareSymbols_swap (as bs : List Nat) :
    (compareSymbols as bs).swap = compareSymbols bs as := by
  induction as generalizing bs with
  | nil => cases bs <;> rfl
  | cons a as ih => cases bs <;> simp [compareSymbols, Ordering.swap_then, Nat.compare_swap, ih]

end Store

/-! ## Rules and shapes -/

/-- Number of operands of the expressions that the rule builds. -/
def Rule.operandCount : Rule → Nat
  | conceptPrimitive | conceptBot | conceptTop | conceptOneOf | rolePrimitive | roleTop
  | booleanNullary => 0
  | conceptNot | conceptProjection | roleInverse | roleNot | roleIdentity | roleClosure
  | roleReflexiveClosure | booleanEmpty | numericalCount => 1
  | conceptAnd | conceptOr | conceptDiff | conceptSome | conceptAll | conceptEqual
  | conceptSubset | roleAnd | roleOr | roleDiff | roleCompose | roleRestrict
  | roleClosureThrough | booleanInclusion => 2
  | numericalDistance => 3

theorem Leaf.operandCount_rule (l : Leaf) : l.rule.operandCount = 0 := by
  cases l <;> rfl

theorem UnaryOp.operandCount_rule (op : UnaryOp) : op.rule.operandCount = 1 := by
  cases op <;> rfl

theorem BinaryOp.operandCount_rule (op : BinaryOp) : op.rule.operandCount = 2 := by
  cases op <;> rfl

theorem Leaf.eq_of_labels {l m : Leaf} (rule : l.rule = m.rule) (symbols : l.symbols = m.symbols) :
    l = m := by
  cases l with
  | conceptPrimitive p i =>
    cases m <;> simp [Leaf.rule] at rule
    case conceptPrimitive q j =>
      cases p; cases q
      simpa [Leaf.symbols] using symbols
  | rolePrimitive p i j =>
    cases m <;> simp [Leaf.rule] at rule
    case rolePrimitive q k l =>
      cases p; cases q
      simpa [Leaf.symbols] using symbols
  | conceptOneOf k =>
    cases m <;> simp [Leaf.rule] at rule
    case conceptOneOf l =>
      cases k; cases l
      simpa [Leaf.symbols] using symbols
  | booleanNullary p =>
    cases m <;> simp [Leaf.rule] at rule
    case booleanNullary q =>
      cases p; cases q
      simpa [Leaf.symbols] using symbols
  | conceptBot | conceptTop | roleTop =>
    cases m <;> simp [Leaf.rule] at rule
    rfl

theorem UnaryOp.eq_of_labels {op other : UnaryOp} (rule : op.rule = other.rule)
    (symbols : op.symbols = other.symbols) (operand : op.operand = other.operand) : op = other := by
  -- Two operators of one rule differ in the kind of their operand.
  cases op <;> cases other <;> simp_all [UnaryOp.rule, UnaryOp.symbols, UnaryOp.operand]

theorem BinaryOp.eq_of_labels {op other : BinaryOp} (rule : op.rule = other.rule)
    (left : op.left = other.left) : op = other := by
  revert rule left
  cases op <;> cases other <;> decide

/-- The operators whose order of operands does not matter take two operands of one
kind. -/
theorem BinaryOp.left_eq_right {op : BinaryOp} (commutative : op.rule.isCommutative = true) :
    op.left = op.right := by
  revert commutative
  cases op <;> decide

namespace Expr

/-! ## Structural order -/

/-- Numbers of the symbols that stand at the root. -/
def symbols : Expr → List Nat
  | leaf l => l.symbols
  | unary op _ => op.symbols
  | binary .. | distance .. => [0, 0, 0]

/-- Compares what stands at the roots: the rules, then the symbols. -/
def compareRoots (a b : Expr) : Ordering :=
  (compare a.rule b.rule).then (Store.compareSymbols a.symbols b.symbols)

/-- The structural order of trees: by the roots, then by the operands from left to
right, first by kind.  Trees with different numbers of operands differ in their
rules. -/
def order : Expr → Expr → Ordering
  | unary op a, unary op' b =>
    (compareRoots (unary op a) (unary op' b)).then ((compare a.kind b.kind).then (order a b))
  | binary op a b, binary op' c d =>
    (compareRoots (binary op a b) (binary op' c d)).then
      (((compare a.kind c.kind).then (order a c)).then ((compare b.kind d.kind).then (order b d)))
  | distance a r b, distance c s d =>
    (compareRoots (distance a r b) (distance c s d)).then
      (((compare a.kind c.kind).then (order a c)).then
        (((compare r.kind s.kind).then (order r s)).then
          ((compare b.kind d.kind).then (order b d))))
  | a, b => compareRoots a b

theorem compareRoots_swap (a b : Expr) : (compareRoots a b).swap = compareRoots b a := by
  rw [compareRoots, Ordering.swap_then, Rule.compare_swap, Store.compareSymbols_swap]
  rfl

theorem compareRoots_eq_iff {a b : Expr} :
    compareRoots a b = .eq ↔ a.rule = b.rule ∧ a.symbols = b.symbols := by
  rw [compareRoots, Ordering.then_eq_eq, Rule.compare_eq_iff, Store.compareSymbols_eq_iff]

theorem order_swap (x y : Expr) : (order x y).swap = order y x := by
  induction x generalizing y with
  | leaf l => cases y <;> simp only [order, compareRoots_swap]
  | unary op a iha =>
    cases y <;> simp only [order, Ordering.swap_then, compareRoots_swap, Kind.compare_swap, iha]
  | binary op a b iha ihb =>
    cases y <;>
      simp only [order, Ordering.swap_then, compareRoots_swap, Kind.compare_swap, iha, ihb]
  | distance a r b iha ihr ihb =>
    cases y <;>
      simp only [order, Ordering.swap_then, compareRoots_swap, Kind.compare_swap, iha, ihr, ihb]

theorem order_self (a : Expr) : order a a = .eq := by
  have twice := order_swap a a
  cases same : order a a <;> simp_all

theorem operandCount_rule (e : Expr) :
    e.rule.operandCount = match e with
      | leaf _ => 0
      | unary .. => 1
      | binary .. => 2
      | distance .. => 3 := by
  cases e with
  | leaf l => exact l.operandCount_rule
  | unary op _ => exact op.operandCount_rule
  | binary op _ _ => exact op.operandCount_rule
  | distance => rfl

/-- The order compares the roots first. -/
theorem order_eq_then (x y : Expr) : ∃ rest, order x y = (compareRoots x y).then rest := by
  have roots : compareRoots x y = (compareRoots x y).then .eq := Ordering.then_eq.symm
  cases x with
  | leaf l => exact ⟨.eq, roots⟩
  | unary op a =>
    cases y with
    | unary op' b => exact ⟨_, rfl⟩
    | leaf _ | binary _ _ _ | distance _ _ _ => exact ⟨.eq, roots⟩
  | binary op a b =>
    cases y with
    | binary op' c d => exact ⟨_, rfl⟩
    | leaf _ | unary _ _ | distance _ _ _ => exact ⟨.eq, roots⟩
  | distance a r b =>
    cases y with
    | distance c s d => exact ⟨_, rfl⟩
    | leaf _ | unary _ _ | binary _ _ _ => exact ⟨.eq, roots⟩

theorem compareRoots_of_order {x y : Expr} (same : order x y = .eq) : compareRoots x y = .eq := by
  obtain ⟨rest, shape⟩ := order_eq_then x y
  rw [shape, Ordering.then_eq_eq] at same
  exact same.1

theorem order_of_roots {x y : Expr} (differ : compareRoots x y ≠ .eq) :
    order x y = compareRoots x y := by
  obtain ⟨rest, shape⟩ := order_eq_then x y
  rw [shape]
  cases roots : compareRoots x y with
  | eq => exact absurd roots differ
  | lt | gt => rfl

/-- Trees that the order does not tell apart are equal. -/
theorem eq_of_order_eq {x y : Expr} (wx : x.WellKinded) (wy : y.WellKinded)
    (same : order x y = .eq) : x = y := by
  -- The rules at the roots fix the number of operands, and the rule, the symbols and the
  -- kinds of the operands together fix the operator.
  induction x generalizing y with
  | leaf l =>
    have roots := compareRoots_eq_iff.mp (compareRoots_of_order same)
    have shape := congrArg Rule.operandCount roots.1
    cases y <;> simp [operandCount_rule] at shape
    case leaf m => rw [Leaf.eq_of_labels roots.1 roots.2]
  | unary op a iha =>
    have roots := compareRoots_eq_iff.mp (compareRoots_of_order same)
    have shape := congrArg Rule.operandCount roots.1
    cases y <;> simp [operandCount_rule] at shape
    case unary op' b =>
      simp only [order, Ordering.then_eq_eq, Kind.compare_eq_iff] at same
      obtain ⟨_, kinds, operands⟩ := same
      have operator : op = op' :=
        UnaryOp.eq_of_labels roots.1 roots.2 (by rw [← wx.1, ← wy.1, kinds])
      rw [operator, iha wx.2 wy.2 operands]
  | binary op a b iha ihb =>
    have roots := compareRoots_eq_iff.mp (compareRoots_of_order same)
    have shape := congrArg Rule.operandCount roots.1
    cases y <;> simp [operandCount_rule] at shape
    case binary op' c d =>
      simp only [order, Ordering.then_eq_eq, Kind.compare_eq_iff] at same
      obtain ⟨_, ⟨kinds, left⟩, _, right⟩ := same
      obtain ⟨ka, _, wa, wb⟩ := wx
      obtain ⟨kc, _, wc, wd⟩ := wy
      have operator : op = op' := BinaryOp.eq_of_labels roots.1 (by rw [← ka, ← kc, kinds])
      rw [operator, iha wa wc left, ihb wb wd right]
  | distance a r b iha ihr ihb =>
    have roots := compareRoots_eq_iff.mp (compareRoots_of_order same)
    have shape := congrArg Rule.operandCount roots.1
    cases y <;> simp [operandCount_rule] at shape
    case distance c s d =>
      simp only [order, Ordering.then_eq_eq] at same
      obtain ⟨_, ⟨_, source⟩, ⟨_, role⟩, _, target⟩ := same
      obtain ⟨_, _, _, wa, wr, wb⟩ := wx
      obtain ⟨_, _, _, wc, ws, wd⟩ := wy
      rw [iha wa wc source, ihr wr ws role, ihb wb wd target]

/-! ## Normal trees -/

/-- Operands whose order does not matter stand in structural order, at any depth. -/
def Normal : Expr → Prop
  | leaf _ => True
  | unary _ a => a.Normal
  | binary op a b =>
    (op.rule.isCommutative = true → order a b ≠ .gt) ∧ a.Normal ∧ b.Normal
  | distance a r b => a.Normal ∧ r.Normal ∧ b.Normal

theorem eq_of_order_both {a b : Expr} (wa : a.WellKinded) (wb : b.WellKinded)
    (forth : order a b ≠ .gt) (back : order b a ≠ .gt) : a = b := by
  apply eq_of_order_eq wa wb
  rw [← order_swap a b] at back
  cases compared : order a b <;> simp_all

theorem Alike.symm {a b : Expr} (alike : Alike a b) : Alike b a := by
  induction alike with
  | leaf l => exact .leaf l
  | unary op _ ih => exact .unary op ih
  | binary op _ _ ihl ihr => exact .binary op ihl ihr
  | swapped op commutative _ _ ihl ihr => exact .swapped op commutative ihr ihl
  | distance _ _ _ ihs ihr iht => exact .distance ihs ihr iht

theorem Alike.trans {a b c : Expr} (first : Alike a b) (second : Alike b c) : Alike a c := by
  induction first generalizing c with
  | leaf l => exact second
  | unary op _ ih =>
    cases second with
    | unary _ operand => exact .unary op (ih operand)
  | binary op _ _ ihl ihr =>
    cases second with
    | binary _ left right => exact .binary op (ihl left) (ihr right)
    | swapped _ commutative left right => exact .swapped op commutative (ihl left) (ihr right)
  | swapped op commutative _ _ ihl ihr =>
    cases second with
    | binary _ left right => exact .swapped op commutative (ihl right) (ihr left)
    | swapped _ _ left right => exact .binary op (ihl right) (ihr left)
  | distance _ _ _ ihs ihr iht =>
    cases second with
    | distance source role target => exact .distance (ihs source) (ihr role) (iht target)

/-- A tree has one normal form. -/
theorem Alike.eq_of_normal {x y : Expr} (alike : Alike x y) (wx : x.WellKinded) (wy : y.WellKinded)
    (nx : x.Normal) (ny : y.Normal) : x = y := by
  induction alike with
  | leaf l => rfl
  | unary op _ ih => rw [ih wx.2 wy.2 nx ny]
  | binary op _ _ ihl ihr =>
    obtain ⟨_, _, wa, wb⟩ := wx
    obtain ⟨_, _, wc, wd⟩ := wy
    rw [ihl wa wc nx.2.1 ny.2.1, ihr wb wd nx.2.2 ny.2.2]
  | swapped op commutative _ _ ihl ihr =>
    obtain ⟨_, _, wa, wb⟩ := wx
    obtain ⟨_, _, wc, wd⟩ := wy
    have left := ihl wa wd nx.2.1 ny.2.2
    have right := ihr wb wc nx.2.2 ny.2.1
    -- Both trees have the same two operands, in order in the one and in the other.
    subst left right
    rw [eq_of_order_both wa wb (nx.1 commutative) (ny.1 commutative)]
  | distance _ _ _ ihs ihr iht =>
    obtain ⟨_, _, _, wa, wr, wb⟩ := wx
    obtain ⟨_, _, _, wc, ws, wd⟩ := wy
    rw [ihs wa wc nx.1 ny.1, ihr wr ws nx.2.1 ny.2.1, iht wb wd nx.2.2 ny.2.2]

end Expr
end PlanFeatures
