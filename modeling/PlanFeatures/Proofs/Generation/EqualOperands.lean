import PlanFeatures.Proofs.Generation.Expressible

/-!
# Operators on equal operands

Intersection and union of an extension with itself give the extension.  The other
operators that a run does not apply to one expression twice give the same extension for
all operands, which a smaller expression denotes too.
-/

namespace PlanFeatures

/-! ## Sets and relations -/

section
variable {n : Nat}

theorem ObjectSet.isEmpty_iff {s : ObjectSet n} : s.isEmpty = true ↔ s = ∅ := by
  rw [ObjectSet.isEmpty_iff_contains]
  constructor
  · intro clear
    exact ObjectSet.ext fun i => by simp [clear]
  · rintro rfl i
    exact ObjectSet.contains_empty i

theorem ObjectSet.inter_self (s : ObjectSet n) : s ∩ s = s :=
  ObjectSet.ext fun i => by simp

theorem ObjectSet.union_self (s : ObjectSet n) : s ∪ s = s :=
  ObjectSet.ext fun i => by simp

theorem ObjectSet.sdiff_self (s : ObjectSet n) : s \ s = ∅ :=
  ObjectSet.ext fun i => by simp

theorem ObjectSet.isSubset_self (s : ObjectSet n) : s.isSubset s = true := by
  rw [ObjectSet.isSubset_eq, ObjectSet.sdiff_self]
  exact ObjectSet.isEmpty_iff.mpr rfl

theorem ObjectSet.filter_true : ObjectSet.filter (fun _ : Fin n => true) = .full :=
  ObjectSet.ext fun i => by simp

theorem ObjectSet.compl_full : (ObjectSet.full : ObjectSet n).compl = ∅ :=
  ObjectSet.ext fun i => by simp

theorem Relation.inter_self (r : Relation n) : r ∩ r = r :=
  Relation.ext fun a => by simp [ObjectSet.inter_self]

theorem Relation.union_self (r : Relation n) : r ∪ r = r :=
  Relation.ext fun a => by simp [ObjectSet.union_self]

theorem Relation.sdiff_self (r : Relation n) : r \ r = Relation.full.compl :=
  Relation.ext fun a => by simp [ObjectSet.sdiff_self, ObjectSet.compl_full]

theorem Relation.isSubset_self (r : Relation n) : r.isSubset r = true := by
  simp [Relation.isSubset, ObjectSet.isSubset_self]

end

/-! ## Operators -/

variable {s : State} {d : Extension s.objectCount}

/-- The operators whose order of operands does not matter, equality apart, give the operand
back. -/
theorem BinaryOp.apply_self {op : BinaryOp} (commutative : op.rule.isCommutative = true)
    (other : op.needsDistinct = false) (kind : d.kind = op.left) : op.apply s d d = .ok d := by
  cases op <;> simp only [BinaryOp.rule, Rule.isCommutative, Bool.false_eq_true] at commutative <;>
    simp only [BinaryOp.needsDistinct, Bool.true_eq_false] at other <;>
    cases d <;> simp only [BinaryOp.left, Extension.kind, reduceCtorEq] at kind
  case conceptAnd.concept set =>
    show Except.ok (Extension.concept (set ∩ set)) = _
    rw [ObjectSet.inter_self]
  case conceptOr.concept set =>
    show Except.ok (Extension.concept (set ∪ set)) = _
    rw [ObjectSet.union_self]
  case roleAnd.role relation =>
    show Except.ok (Extension.role (relation ∩ relation)) = _
    rw [Relation.inter_self]
  case roleOr.role relation =>
    show Except.ok (Extension.role (relation ∪ relation)) = _
    rw [Relation.union_self]

/-- An expression that denotes what the operator gives on equal operands. -/
def BinaryOp.onEqual : BinaryOp → Expr
  | conceptEqual | conceptSubset => .leaf .conceptTop
  | roleDiff => .unary .roleNot (.leaf .roleTop)
  | inclusionConcept | inclusionRole => .unary .emptyConcept (.leaf .conceptBot)
  | _ => .leaf .conceptBot

theorem BinaryOp.kind_onEqual {op : BinaryOp} (needed : op.needsDistinct = true) :
    op.onEqual.kind = op.rule.kind := by
  revert needed
  cases op <;> decide

theorem BinaryOp.complexity_onEqual_le (op : BinaryOp) : op.onEqual.complexity ≤ 3 := by
  cases op <;> decide

theorem BinaryOp.left_eq_kind {op : BinaryOp} (commutative : op.rule.isCommutative = true)
    (other : op.needsDistinct = false) : op.left = op.rule.kind := by
  revert commutative other
  cases op <;> decide

theorem BinaryOp.apply_equal {op : BinaryOp} (needed : op.needsDistinct = true)
    (kind : d.kind = op.left) : op.apply s d d = op.onEqual.denote s := by
  cases op <;> simp only [BinaryOp.needsDistinct, Bool.false_eq_true] at needed <;>
    cases d <;> simp only [BinaryOp.left, Extension.kind, reduceCtorEq] at kind
  case conceptDiff.concept set =>
    show Except.ok (Extension.concept (set \ set)) = .ok (.concept ∅)
    rw [ObjectSet.sdiff_self]
  case conceptEqual.role relation =>
    show Except.ok (Extension.concept (.filter fun x =>
      decide (relation.successors x = relation.successors x))) = .ok (.concept .full)
    simp [ObjectSet.filter_true]
  case conceptSubset.role relation =>
    show Except.ok (Extension.concept (.filter fun x =>
      (relation.successors x).isSubset (relation.successors x))) = .ok (.concept .full)
    simp [ObjectSet.isSubset_self, ObjectSet.filter_true]
  case roleDiff.role relation =>
    show Except.ok (Extension.role (relation \ relation)) = .ok (.role Relation.full.compl)
    rw [Relation.sdiff_self]
  case inclusionConcept.concept set =>
    show Except.ok (Extension.boolean (set.isSubset set))
      = .ok (.boolean (∅ : ObjectSet s.objectCount).isEmpty)
    rw [ObjectSet.isSubset_self, ObjectSet.isEmpty_iff.mpr rfl]
  case inclusionRole.role relation =>
    show Except.ok (Extension.boolean (relation.isSubset relation))
      = .ok (.boolean (∅ : ObjectSet s.objectCount).isEmpty)
    rw [Relation.isSubset_self, ObjectSet.isEmpty_iff.mpr rfl]

/-! ## Expressions -/

namespace Expr
variable {states : List State} {v : Vocabulary} {op : BinaryOp} {a b : Expr}

theorem denote_binary_of_agree (sample : ∀ s ∈ states, s.Over v) (formed : (binary op a b).Over v)
    (agree : a.Agree states b) {s : State} (member : s ∈ states) :
    ∃ d, a.denote s = .ok d ∧ d.kind = op.left ∧ (binary op a b).denote s = op.apply s d d := by
  obtain ⟨d, value, kind⟩ := denote_ok (sample s member) formed.binary.1
  exact ⟨d, value, kind.trans formed.wellKinded.1,
    denote_binary value ((agree s member).symm.trans value)⟩

theorem binary_agree_self (sample : ∀ s ∈ states, s.Over v) (formed : (binary op a b).Over v)
    (agree : a.Agree states b) (commutative : op.rule.isCommutative = true)
    (other : op.needsDistinct = false) : a.Agree states (binary op a b) := by
  intro s member
  obtain ⟨d, value, kind, whole⟩ := denote_binary_of_agree sample formed agree member
  rw [whole, value, BinaryOp.apply_self commutative other kind]

theorem onEqual_agree (sample : ∀ s ∈ states, s.Over v) (formed : (binary op a b).Over v)
    (agree : a.Agree states b) (needed : op.needsDistinct = true) :
    op.onEqual.Agree states (binary op a b) := by
  intro s member
  obtain ⟨d, _, kind, whole⟩ := denote_binary_of_agree sample formed agree member
  rw [whole, BinaryOp.apply_equal needed kind]

end Expr
end PlanFeatures
