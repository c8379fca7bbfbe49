import PlanFeatures.Proofs.Grammar.TotalOrder
import PlanFeatures.Proofs.Store.History
import PlanFeatures.Proofs.Strict.Store

/-!
# The structural order of a store is a total order

Every stored expression has one tree, and no two have the same, so the order of trees is an
order of handles.  A comparison looks at operands only, which have smaller indices: it ends,
and finds every node that it looks for.
-/

namespace PlanFeatures.Store

/-- The handles are totally ordered by structure, and so are the operands of every stored node
whose order does not matter. -/
structure TotallyOrdered (s : Store) (issued : List Handle) : Prop where
  /-- A comparison goes through as many levels as the first index says at most, and there is no
  fault on its way. -/
  ends : ∀ a ∈ issued, ∀ b ∈ issued, ∀ levels, a.index < levels →
    Strict.orderBelow s levels a b = .ok (s.order a b)
  answers : ∀ a ∈ issued, ∀ b ∈ issued, s.order? a b = some (s.order a b)
  equal : ∀ a ∈ issued, ∀ b ∈ issued, s.order a b = .eq ↔ a = b
  antisymmetric : ∀ a ∈ issued, ∀ b ∈ issued, (s.order a b).swap = s.order b a
  transitive : ∀ a ∈ issued, ∀ b ∈ issued, ∀ c ∈ issued, (s.order a b).isLE → (s.order b c).isLE →
    (s.order a c).isLE
  comparable : ∀ a ∈ issued, ∀ b ∈ issued, (s.order a b).isLE ∨ (s.order b a).isLE
  operands : ∀ h op a b, s.node? h = some (.binary op a b) → op.rule.isCommutative = true →
    (s.order ⟨op.left, a⟩ ⟨op.right, b⟩).isLE

theorem order_self (s : Store) (a : Handle) : s.order a a = .eq := by
  simp [order, orderBelow]

/-- With enough levels, how many there are does not matter. -/
theorem Grounded.orderBelow_eq_order {s : Store} (grounded : s.Grounded) {levels : Nat}
    {a b : Handle} (enough : a.index < levels) (hasA : s.Has a) (hasB : s.Has b) :
    s.orderBelow levels a b = s.order a b := by
  obtain ⟨x, treeA, _⟩ := grounded.exists_tree hasA
  obtain ⟨y, treeB, _⟩ := grounded.exists_tree hasB
  rw [grounded.orderBelow_eq enough hasA hasB treeA treeB,
    grounded.order_eq hasA hasB treeA treeB]

theorem Grounded.order_swap {s : Store} (grounded : s.Grounded) {a b : Handle} (hasA : s.Has a)
    (hasB : s.Has b) : (s.order a b).swap = s.order b a := by
  obtain ⟨x, treeA, _⟩ := grounded.exists_tree hasA
  obtain ⟨y, treeB, _⟩ := grounded.exists_tree hasB
  rw [grounded.order_eq hasA hasB treeA treeB, grounded.order_eq hasB hasA treeB treeA,
    Expr.order_swap]

theorem Grounded.order_trans {s : Store} (grounded : s.Grounded) {a b c : Handle}
    (hasA : s.Has a) (hasB : s.Has b) (hasC : s.Has c) (first : (s.order a b).isLE)
    (second : (s.order b c).isLE) : (s.order a c).isLE := by
  obtain ⟨x, treeA, _⟩ := grounded.exists_tree hasA
  obtain ⟨y, treeB, _⟩ := grounded.exists_tree hasB
  obtain ⟨z, treeC, _⟩ := grounded.exists_tree hasC
  rw [grounded.order_eq hasA hasB treeA treeB] at first
  rw [grounded.order_eq hasB hasC treeB treeC] at second
  rw [grounded.order_eq hasA hasC treeA treeC]
  exact Std.TransCmp.isLE_trans first second

/-- Handles that the order does not tell apart have one tree, and a tree is stored once. -/
theorem WellFormed.order_eq_iff {s : Store} (wf : s.WellFormed) {a b : Handle} (hasA : s.Has a)
    (hasB : s.Has b) : s.order a b = .eq ↔ a = b := by
  constructor
  · intro tied
    obtain ⟨x, standsA⟩ := wf.represents hasA
    obtain ⟨y, standsB⟩ := wf.represents hasB
    rw [wf.order_eq hasA hasB standsA.tree standsB.tree] at tied
    have same := Expr.eq_of_order_eq standsA.formed.wellKinded standsB.formed.wellKinded tied
    exact wf.eq_of_tree hasA hasB standsA.tree (same ▸ standsB.tree)
  · intro same
    rw [same, order_self]

/-- The operands of a stored node need not be put into order. -/
theorem WellFormed.ordered_operands {s : Store} (wf : s.WellFormed) {h : Handle} {op : BinaryOp}
    {a b : Nat} (stored : s.node? h = some (.binary op a b))
    (commutative : op.rule.isCommutative = true) : (s.order ⟨op.left, a⟩ ⟨op.right, b⟩).isLE := by
  have canonical := wf.canonical stored
  cases compared : s.order ⟨op.left, a⟩ ⟨op.right, b⟩ with
  | lt | eq => rfl
  | gt =>
    simp only [Store.canonical, commutative, compared, and_self, if_true] at canonical
    -- A node that is its own swap has one operand twice.
    obtain rfl : b = a := by injection canonical
    rw [BinaryOp.left_eq_right commutative, order_self] at compared
    cases compared

/-- The structural order is total on the handles that a caller holds. -/
theorem Reachable.totally_ordered {s : Store} {issued : List Handle}
    (reachable : s.Reachable issued) : s.TotallyOrdered issued := by
  obtain ⟨wf, has⟩ := reachable.sound
  constructor
  · intro a memberA b memberB levels enough
    rw [Strict.orderBelow_ok wf.toGrounded enough (has a memberA) (has b memberB),
      wf.orderBelow_eq_order enough (has a memberA) (has b memberB)]
  · intro a memberA b memberB
    exact order?_eq (has a memberA) (has b memberB)
  · intro a memberA b memberB
    exact wf.order_eq_iff (has a memberA) (has b memberB)
  · intro a memberA b memberB
    exact wf.order_swap (has a memberA) (has b memberB)
  · intro a memberA b memberB c memberC
    exact wf.order_trans (has a memberA) (has b memberB) (has c memberC)
  · intro a memberA b memberB
    rw [← wf.order_swap (has a memberA) (has b memberB)]
    cases s.order a b <;> simp
  · intro h op a b stored commutative
    exact wf.ordered_operands stored commutative

/-- Two of these expressions say that something is empty: the kinds of their operands tell them
apart. -/
theorem totally_ordered_operand_kinds :
    ∃ (s : Store) (issued : List Handle), s.Reachable issued ∧
      issued = [⟨.concept, 5⟩, ⟨.boolean, 4⟩, ⟨.boolean, 3⟩, ⟨.role, 2⟩, ⟨.concept, 1⟩] ∧
      s.node? ⟨.concept, 5⟩ = some (.binary .conceptOr 1 1) ∧
      s.order ⟨.boolean, 3⟩ ⟨.boolean, 4⟩ = .gt ∧ s.TotallyOrdered issued := by
  have none : Reachable ⟨.empty, ⟨#[], 1, ∅⟩, #[]⟩ [] := @Reachable.new .empty 0 _ rfl
  have top := none.call (.leaf .conceptTop) (by decide) trivial
  have roles := top.call (.leaf .roleTop) (by decide) trivial
  have role := roles.call (.composite .booleanEmpty [⟨.role, 2⟩]) (by decide +kernel) trivial
  have concept := role.call (.composite .booleanEmpty [⟨.concept, 1⟩]) (by decide +kernel) trivial
  have union := concept.call (.composite .conceptOr [⟨.concept, 1⟩, ⟨.concept, 1⟩])
    (by decide +kernel) trivial
  exact ⟨_, _, union, by decide +kernel, by decide +kernel, by decide +kernel,
    union.totally_ordered⟩

end PlanFeatures.Store
