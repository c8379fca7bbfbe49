import PlanFeatures.Proofs.Domain.Made
import PlanFeatures.Proofs.Meaning.Operators
import PlanFeatures.Proofs.Store.Trees
import PlanFeatures.Sample.Evaluator

/-!
# What trees denote

The extension of a tree is put together from those of its operands, with no store
and no sharing.  An expression over the vocabulary of a state denotes something of
its kind in it, and alike expressions denote the same.
-/

namespace PlanFeatures

/-- The state belongs to a problem that has been made over the vocabulary. -/
structure State.Over (v : Vocabulary) (s : State) : Prop where
  made : s.problem.Made
  vocabulary : s.problem.vocabulary = v

namespace Expr

/-- The extension of a tree in a state. -/
def denote (s : State) : Expr → Except EvalError (Extension s.objectCount)
  | leaf l => l.denote s
  | unary op a => do op.apply s (← a.denote s)
  | binary op a b => do op.apply s (← a.denote s) (← b.denote s)
  | distance a r b => do applyDistance s (← a.denote s) (← r.denote s) (← b.denote s)

end Expr

/-! ## Leaves -/

/-- A loop none of whose steps fails. -/
theorem foldlM_ok {α β ε : Type} {f : β → α → Except ε β} {as : List α}
    (steps : ∀ a ∈ as, ∀ b, ∃ b', f b a = .ok b') (b : β) : ∃ b', as.foldlM f b = .ok b' := by
  induction as generalizing b with
  | nil => exact ⟨b, rfl⟩
  | cons a rest ih =>
    obtain ⟨b', first⟩ := steps a List.mem_cons_self b
    obtain ⟨b'', more⟩ := ih (fun a member => steps a (List.mem_cons_of_mem _ member)) b'
    refine ⟨b'', ?_⟩
    rw [List.foldlM_cons, first]
    exact more

variable {v : Vocabulary} {s : State}

theorem Leaf.denote_ok {l : Leaf} (formed : s.Over v) (declared : l.Declared v) :
    ∃ x, l.denote s = .ok x ∧ x.kind = l.rule.kind := by
  cases l with
  | conceptPrimitive p i =>
    obtain ⟨predicate, known, inside⟩ := declared
    rw [← formed.vocabulary] at known
    have steps : ∀ a ∈ s.atomsOf p, ∀ set : ObjectSet s.objectCount,
        ∃ set' : ObjectSet s.objectCount,
          (do return set.insert (← s.objectAt a i) : Except EvalError _) = .ok set' := by
      intro a member set
      obtain ⟨o, found⟩ := State.objectAt_ok formed.made known inside member
      exact ⟨set.insert o, by rw [found]; rfl⟩
    obtain ⟨set, whole⟩ := foldlM_ok steps ∅
    exact ⟨.concept set, by simp only [denote, whole]; rfl, rfl⟩
  | rolePrimitive p i j =>
    obtain ⟨predicate, known, first, second⟩ := declared
    rw [← formed.vocabulary] at known
    have steps : ∀ a ∈ s.atomsOf p, ∀ relation : Relation s.objectCount,
        ∃ relation' : Relation s.objectCount,
          (do return relation.insert (← s.objectAt a i) (← s.objectAt a j) : Except EvalError _)
            = .ok relation' := by
      intro a member relation
      obtain ⟨o, found⟩ := State.objectAt_ok formed.made known first member
      obtain ⟨q, found'⟩ := State.objectAt_ok formed.made known second member
      exact ⟨relation.insert o q, by rw [found, found']; rfl⟩
    obtain ⟨relation, whole⟩ := foldlM_ok steps ∅
    exact ⟨.role relation, by simp only [denote, whole]; rfl, rfl⟩
  | conceptOneOf k =>
    obtain ⟨name, known⟩ := declared
    rw [← formed.vocabulary] at known
    simp only [denote, known, Option.isNone_some, Bool.false_eq_true, if_false]
    cases found : s.problem.constantObject? k with
    | none => exact ⟨_, rfl, rfl⟩
    | some o =>
      simp only [Problem.constantObject?, known] at found
      have bound : o.index < s.objectCount := Problem.findObject?_lt found
      exact ⟨.concept (ObjectSet.insert ∅ ⟨o.index, bound⟩), by simp [bound]; rfl, rfl⟩
  | conceptBot | conceptTop | roleTop | booleanNullary => exact ⟨_, rfl, rfl⟩

namespace Expr

/-! ## Trees -/

theorem denote_unary {op : UnaryOp} {a : Expr} {d : Extension s.objectCount}
    (value : a.denote s = .ok d) : (unary op a).denote s = op.apply s d := by
  rw [denote, value]
  rfl

theorem denote_binary {op : BinaryOp} {a b : Expr} {d e : Extension s.objectCount}
    (left : a.denote s = .ok d) (right : b.denote s = .ok e) :
    (binary op a b).denote s = op.apply s d e := by
  rw [denote, left, right]
  rfl

theorem denote_distance {a r b : Expr} {d e f : Extension s.objectCount}
    (source : a.denote s = .ok d) (role : r.denote s = .ok e) (target : b.denote s = .ok f) :
    (distance a r b).denote s = applyDistance s d e f := by
  rw [denote, source, role, target]
  rfl

theorem Over.unary {op : UnaryOp} {a : Expr} (formed : (unary op a).Over v) : a.Over v :=
  ⟨formed.wellKinded.2, formed.declared.2⟩

theorem Over.binary {op : BinaryOp} {a b : Expr} (formed : (binary op a b).Over v) :
    a.Over v ∧ b.Over v :=
  ⟨⟨formed.wellKinded.2.2.1, formed.declared.1⟩, formed.wellKinded.2.2.2, formed.declared.2⟩

theorem Over.distance {a r b : Expr} (formed : (distance a r b).Over v) :
    a.Over v ∧ r.Over v ∧ b.Over v :=
  have ⟨_, _, _, source, role, target⟩ := formed.wellKinded
  ⟨⟨source, formed.declared.1⟩, ⟨role, formed.declared.2.1⟩, target, formed.declared.2.2⟩

/-- An expression denotes something of its kind in every state over its
vocabulary. -/
theorem denote_ok {e : Expr} (state : s.Over v) (formed : e.Over v) :
    ∃ x, e.denote s = .ok x ∧ x.kind = e.kind := by
  induction e with
  | leaf l => exact Leaf.denote_ok state formed.declared
  | unary op a iha =>
    obtain ⟨d, value, kind⟩ := iha formed.unary
    rw [denote_unary value]
    exact UnaryOp.exists_apply (kind.trans formed.wellKinded.1)
  | binary op a b iha ihb =>
    obtain ⟨d, left, kindLeft⟩ := iha formed.binary.1
    obtain ⟨e, right, kindRight⟩ := ihb formed.binary.2
    rw [denote_binary left right]
    exact BinaryOp.exists_apply (kindLeft.trans formed.wellKinded.1)
      (kindRight.trans formed.wellKinded.2.1)
  | distance a r b iha ihr ihb =>
    obtain ⟨d, source, kindSource⟩ := iha formed.distance.1
    obtain ⟨e, role, kindRole⟩ := ihr formed.distance.2.1
    obtain ⟨f, target, kindTarget⟩ := ihb formed.distance.2.2
    rw [denote_distance source role target]
    exact exists_applyDistance (kindSource.trans formed.wellKinded.1)
      (kindRole.trans formed.wellKinded.2.1) (kindTarget.trans formed.wellKinded.2.2.1)

theorem kind_of_denote {e : Expr} {d : Extension s.objectCount} (state : s.Over v)
    (formed : e.Over v) (value : e.denote s = .ok d) : d.kind = e.kind := by
  obtain ⟨x, same, kind⟩ := denote_ok state formed
  cases value.symm.trans same
  exact kind

theorem Alike.kind_eq {a b : Expr} (alike : Alike a b) : a.kind = b.kind :=
  congrArg Rule.kind alike.rule_eq

theorem Alike.denote_eq {a b : Expr} (alike : Alike a b) (state : s.Over v) (formed : a.Over v) :
    a.denote s = b.denote s := by
  induction alike with
  | leaf l => rfl
  | unary op _ ih => simp only [denote, ih formed.unary]
  | binary op _ _ ihl ihr => simp only [denote, ihl formed.binary.1, ihr formed.binary.2]
  | swapped op commutative _ _ ihl ihr =>
    -- Both operands denote something, so it does not matter which one is looked at first.
    obtain ⟨d, left, kindLeft⟩ := denote_ok state formed.binary.1
    obtain ⟨e, right, kindRight⟩ := denote_ok state formed.binary.2
    have left' := (ihl formed.binary.1).symm.trans left
    have right' := (ihr formed.binary.2).symm.trans right
    rw [denote_binary left right, denote_binary right' left']
    exact BinaryOp.apply_comm commutative (kindLeft.trans formed.wellKinded.1)
      (kindRight.trans formed.wellKinded.2.1)
  | distance _ _ _ ihs ihr iht =>
    simp only [denote, ihs formed.distance.1, ihr formed.distance.2.1, iht formed.distance.2.2]

end Expr

/-! ## Nodes over trees -/

/-- A node whose operands have the extensions of their trees has the extension of
its tree. -/
theorem Node.denote_of_tree? {node : Node} {trees : Nat → Option Expr} {t : Expr}
    (state : s.Over v) (formed : t.Over v) (tree : node.tree? trees = some t)
    {operand : Handle → Except EvalError (Extension s.objectCount)}
    (operands : ∀ h ∈ node.operands, ∀ x, trees h.index = some x → operand h = x.denote s) :
    node.denote s operand = t.denote s := by
  cases node with
  | leaf l => rw [Node.tree?_leaf.mp tree]; rfl
  | unary op a =>
    obtain ⟨x, hx, rfl⟩ := Node.tree?_unary.mp tree
    obtain ⟨d, value, kind⟩ := Expr.denote_ok state formed.unary
    have known := (operands _ (Node.operand_mem op a) x hx).trans value
    rw [Expr.denote_unary value]
    exact UnaryOp.denote_eq_apply known (kind.trans formed.wellKinded.1)
  | binary op a b =>
    obtain ⟨x, y, hx, hy, rfl⟩ := Node.tree?_binary.mp tree
    obtain ⟨d, left, kindLeft⟩ := Expr.denote_ok state formed.binary.1
    obtain ⟨e, right, kindRight⟩ := Expr.denote_ok state formed.binary.2
    have knownLeft := (operands _ (Node.left_mem op a b) x hx).trans left
    have knownRight := (operands _ (Node.right_mem op a b) y hy).trans right
    rw [Expr.denote_binary left right]
    exact BinaryOp.denote_eq_apply knownLeft knownRight (kindLeft.trans formed.wellKinded.1)
      (kindRight.trans formed.wellKinded.2.1)
  | distance a r b =>
    obtain ⟨x, y, z, hx, hy, hz, rfl⟩ := Node.tree?_distance.mp tree
    obtain ⟨d, source, kindSource⟩ := Expr.denote_ok state formed.distance.1
    obtain ⟨e, role, kindRole⟩ := Expr.denote_ok state formed.distance.2.1
    obtain ⟨f, target, kindTarget⟩ := Expr.denote_ok state formed.distance.2.2
    have knownSource := (operands _ (Node.source_mem a r b) x hx).trans source
    have knownRole := (operands _ (Node.role_mem a r b) y hy).trans role
    have knownTarget := (operands _ (Node.target_mem a r b) z hz).trans target
    rw [Expr.denote_distance source role target]
    exact denote_distance_eq knownSource knownRole knownTarget
      (kindSource.trans formed.wellKinded.1) (kindRole.trans formed.wellKinded.2.1)
      (kindTarget.trans formed.wellKinded.2.2.1)

end PlanFeatures
