import PlanFeatures.Meaning.Evaluation
import PlanFeatures.Proofs.Grammar.Declared
import PlanFeatures.Proofs.Grammar.NormalForm

/-!
# Operators on extensions

An operator looks up its operands by handle.  What it gives depends on what the
operands denote and on nothing else, so it is an operation on extensions: the same
one for the node as it was enumerated, for the node as it is stored, and for the
tree.  On operands of the kinds that the operator takes it is defined and gives an
extension of the kind that its rule builds; when the order of operands does not
matter for the rule, it does not matter here.
-/

namespace PlanFeatures

section
variable (s : State)

/-- The operator on an extension. -/
def UnaryOp.apply (op : UnaryOp) (d : Extension s.objectCount) :
    Except EvalError (Extension s.objectCount) :=
  op.denote s (fun _ => .ok d) 0

/-- The operator on two extensions. -/
def BinaryOp.apply (op : BinaryOp) (d e : Extension s.objectCount) :
    Except EvalError (Extension s.objectCount) :=
  op.denote s (fun h => .ok (if h.index = 0 then d else e)) 0 1

/-- The distance between two extensions along a third. -/
def applyDistance (source role target : Extension s.objectCount) :
    Except EvalError (Extension s.objectCount) :=
  (Node.distance 0 1 2).denote s fun h =>
    .ok (if h.index = 0 then source else if h.index = 1 then role else target)

end

variable {s : State} {operand : Handle → Except EvalError (Extension s.objectCount)}

theorem operandSet_of {i : Nat} {set : ObjectSet s.objectCount}
    (value : operand ⟨.concept, i⟩ = .ok (.concept set)) : operandSet s operand i = .ok set := by
  simp only [operandSet, value]
  rfl

theorem operandRelation_of {i : Nat} {relation : Relation s.objectCount}
    (value : operand ⟨.role, i⟩ = .ok (.role relation)) :
    operandRelation s operand i = .ok relation := by
  simp only [operandRelation, value]
  rfl

/-! ## One operand -/

theorem UnaryOp.denote_eq_apply {op : UnaryOp} {a : Nat} {d : Extension s.objectCount}
    (value : operand ⟨op.operand, a⟩ = .ok d) (kind : d.kind = op.operand) :
    op.denote s operand a = op.apply s d := by
  cases op <;> cases d <;>
    simp only [UnaryOp.operand, Extension.kind, reduceCtorEq] at kind value <;>
    (simp only [UnaryOp.apply, UnaryOp.denote, operandSet, operandRelation, value]; rfl)

theorem UnaryOp.exists_apply {op : UnaryOp} {d : Extension s.objectCount}
    (kind : d.kind = op.operand) : ∃ x, op.apply s d = .ok x ∧ x.kind = op.rule.kind := by
  cases op <;> cases d <;> simp only [UnaryOp.operand, Extension.kind, reduceCtorEq] at kind <;>
    exact ⟨_, rfl, rfl⟩

/-! ## Two operands -/

theorem BinaryOp.denote_eq_apply {op : BinaryOp} {a b : Nat} {d e : Extension s.objectCount}
    (left : operand ⟨op.left, a⟩ = .ok d) (right : operand ⟨op.right, b⟩ = .ok e)
    (kindLeft : d.kind = op.left) (kindRight : e.kind = op.right) :
    op.denote s operand a b = op.apply s d e := by
  cases op <;> cases d <;>
    simp only [BinaryOp.left, Extension.kind, reduceCtorEq] at kindLeft left <;>
    cases e <;> simp only [BinaryOp.right, Extension.kind, reduceCtorEq] at kindRight right <;>
    (simp only [BinaryOp.apply, BinaryOp.denote, operandSet, operandRelation, left, right]; rfl)

theorem BinaryOp.exists_apply {op : BinaryOp} {d e : Extension s.objectCount}
    (kindLeft : d.kind = op.left) (kindRight : e.kind = op.right) :
    ∃ x, op.apply s d e = .ok x ∧ x.kind = op.rule.kind := by
  cases op <;> cases d <;> simp only [BinaryOp.left, Extension.kind, reduceCtorEq] at kindLeft <;>
    cases e <;> simp only [BinaryOp.right, Extension.kind, reduceCtorEq] at kindRight <;>
    exact ⟨_, rfl, rfl⟩

/-! ### Order of operands -/

theorem ObjectSet.union_comm {n : Nat} (a b : ObjectSet n) : a ∪ b = b ∪ a :=
  ObjectSet.ext fun i => by simp [Bool.or_comm]

theorem ObjectSet.inter_comm {n : Nat} (a b : ObjectSet n) : a ∩ b = b ∩ a :=
  ObjectSet.ext fun i => by simp [Bool.and_comm]

theorem Relation.union_comm {n : Nat} (r t : Relation n) : r ∪ t = t ∪ r :=
  Relation.ext fun a => by simp [ObjectSet.union_comm]

theorem Relation.inter_comm {n : Nat} (r t : Relation n) : r ∩ t = t ∩ r :=
  Relation.ext fun a => by simp [ObjectSet.inter_comm]

theorem BinaryOp.apply_comm {op : BinaryOp} (commutative : op.rule.isCommutative = true)
    {d e : Extension s.objectCount} (kindLeft : d.kind = op.left) (kindRight : e.kind = op.right) :
    op.apply s d e = op.apply s e d := by
  -- What is left after the kinds are five operators, each on two extensions of one kind.
  cases op <;> simp only [BinaryOp.rule, Rule.isCommutative, Bool.false_eq_true] at commutative <;>
    cases d <;> simp only [BinaryOp.left, Extension.kind, reduceCtorEq] at kindLeft <;>
    cases e <;> simp only [BinaryOp.right, Extension.kind, reduceCtorEq] at kindRight
  case conceptAnd.concept.concept a b =>
    show Except.ok (Extension.concept (a ∩ b)) = Except.ok (Extension.concept (b ∩ a))
    rw [ObjectSet.inter_comm]
  case conceptOr.concept.concept a b =>
    show Except.ok (Extension.concept (a ∪ b)) = Except.ok (Extension.concept (b ∪ a))
    rw [ObjectSet.union_comm]
  case conceptEqual.role.role r t =>
    show Except.ok (Extension.concept (.filter fun x => decide (r.successors x = t.successors x)))
      = Except.ok (Extension.concept (.filter fun x => decide (t.successors x = r.successors x)))
    simp only [eq_comm]
  case roleAnd.role.role r t =>
    show Except.ok (Extension.role (r ∩ t)) = Except.ok (Extension.role (t ∩ r))
    rw [Relation.inter_comm]
  case roleOr.role.role r t =>
    show Except.ok (Extension.role (r ∪ t)) = Except.ok (Extension.role (t ∪ r))
    rw [Relation.union_comm]

/-! ## Distances -/

theorem denote_distance_eq {a r b : Nat} {d e f : Extension s.objectCount}
    (source : operand ⟨.concept, a⟩ = .ok d) (role : operand ⟨.role, r⟩ = .ok e)
    (target : operand ⟨.concept, b⟩ = .ok f) (kindSource : d.kind = .concept)
    (kindRole : e.kind = .role) (kindTarget : f.kind = .concept) :
    (Node.distance a r b).denote s operand = applyDistance s d e f := by
  cases d <;> simp only [Extension.kind, reduceCtorEq] at kindSource
  cases e <;> simp only [Extension.kind, reduceCtorEq] at kindRole
  cases f <;> simp only [Extension.kind, reduceCtorEq] at kindTarget
  simp only [applyDistance, Node.denote, operandSet_of source, operandRelation_of role,
    operandSet_of target]
  rfl

theorem exists_applyDistance {d e f : Extension s.objectCount} (kindSource : d.kind = .concept)
    (kindRole : e.kind = .role) (kindTarget : f.kind = .concept) :
    ∃ x, applyDistance s d e f = .ok x ∧ x.kind = .numerical := by
  cases d <;> simp only [Extension.kind, reduceCtorEq] at kindSource
  cases e <;> simp only [Extension.kind, reduceCtorEq] at kindRole
  cases f <;> simp only [Extension.kind, reduceCtorEq] at kindTarget
  exact ⟨_, rfl, rfl⟩

end PlanFeatures
