import PlanFeatures.Proofs.Strict.Store
import PlanFeatures.Sample.Feature

/-!
# Strict features

The text of an expression of a well-formed store is written without a fault: all that the
expression is made of is found in the store, and its symbols are in the vocabulary.
-/

namespace PlanFeatures.Strict

open List

def predicateText (v : Vocabulary) (p : PredicateId) : Except Fault String := do
  return (← found (.noSuchPredicate p) (v.predicate? p)).name

def constantText (v : Vocabulary) (k : ConstantId) : Except Fault String :=
  found (.noSuchConstant k) (v.constant? k)

/-- Texts of the arguments of a leaf. -/
def leafArguments (v : Vocabulary) : Leaf → Except Fault (List String)
  | .conceptPrimitive p i => return [← predicateText v p, toString i]
  | .rolePrimitive p i j => return [← predicateText v p, toString i, toString j]
  | .booleanNullary p => return [← predicateText v p]
  | .conceptOneOf k => return [← constantText v k]
  | .conceptBot | .conceptTop | .roleTop => return []

/-- Texts of the arguments of a node, given how its operands are written. -/
def argumentTexts (v : Vocabulary) (operandText : Handle → Except Fault String) :
    Node → Except Fault (List String)
  | .leaf l => leafArguments v l
  | .unary (.conceptProjection i) a => return [← operandText ⟨.role, a⟩, toString i]
  | node => node.operands.mapM operandText

/-- Text of an expression whose index is below the fuel. -/
def textBelow (s : Store) : (fuel : Nat) → Handle → Except Fault String
  | 0, _ => .error .endless
  | fuel + 1, h => do
    let node ← entry s.table h.index
    return applicationText node.rule.name (← argumentTexts s.vocabulary (textBelow s fuel) node)

def text (s : Store) (h : Handle) : Except Fault String := textBelow s (h.index + 1) h

/-- The feature that an expression is. -/
def feature (s : Store) (h : Handle) : Except Fault Feature :=
  if h.kind.isFeature then return ⟨h, ← complexity s h, ← text s h⟩
  else throw (.noFeature h)

/-! ## Texts -/

section
variable {v : Vocabulary}

theorem predicateText_ok {p : PredicateId} {predicate : Predicate}
    (known : v.predicate? p = some predicate) : predicateText v p = .ok (v.predicateText p) := by
  rw [predicateText, bind_ok (found_some known), Vocabulary.predicateText, known]
  rfl

theorem constantText_ok {k : ConstantId} {name : String} (known : v.constant? k = some name) :
    constantText v k = .ok (v.constantText k) := by
  rw [Vocabulary.constantText, known]
  exact found_some known

theorem leafArguments_ok {l : Leaf} (declared : l.Declared v) :
    leafArguments v l = .ok (v.leafArguments l) := by
  cases l with
  | conceptPrimitive p i | rolePrimitive p i j | booleanNullary p =>
    obtain ⟨predicate, known, _⟩ := declared
    rw [leafArguments, bind_ok (predicateText_ok known)]
    rfl
  | conceptOneOf k =>
    obtain ⟨name, known⟩ := declared
    rw [leafArguments, bind_ok (constantText_ok known)]
    rfl
  | conceptBot | conceptTop | roleTop => rfl

end

section
variable {s : Store}

theorem argumentTexts_ok {operandText : Handle → Except Fault String} {plain : Handle → String}
    {node : Node} (declared : node.Declared s.vocabulary)
    (operands : ∀ h ∈ node.operands, operandText h = .ok (plain h)) :
    argumentTexts s.vocabulary operandText node = .ok (s.argumentTexts plain node) := by
  cases node with
  | leaf l => exact leafArguments_ok declared
  | unary op a =>
    cases op with
    | conceptProjection i =>
      have role : operandText ⟨.role, a⟩ = .ok (plain ⟨.role, a⟩) :=
        operands _ (Node.operand_mem (.conceptProjection i) a)
      rw [argumentTexts, bind_ok role]
      rfl
    | _ => exact mapM_eq_ok operands
  | binary op a b | distance a r b => exact mapM_eq_ok operands

variable (wf : s.WellFormed)
include wf

theorem textBelow_ok {fuel : Nat} {h : Handle} (fueled : h.index < fuel) (has : s.Has h) :
    textBelow s fuel h = .ok (s.textBelow fuel h) := by
  -- Operands have smaller indices, so the fuel that is left is enough for them.
  induction fuel generalizing h with
  | zero => omega
  | succ fuel ih =>
    obtain ⟨node, stored⟩ := has.node
    have operands : ∀ g ∈ node.operands, textBelow s fuel g = .ok (s.textBelow fuel g) := by
      intro g member
      have earlier := wf.earlier stored g member
      exact ih (by omega) (wf.has stored g member)
    simp only [Store.textBelow, stored]
    rw [textBelow, bind_ok (entry_ok stored),
      bind_ok (argumentTexts_ok (wf.declared stored) operands)]
    rfl

theorem text_ok {h : Handle} (has : s.Has h) : text s h = .ok (s.text h) :=
  textBelow_ok wf (Nat.lt_succ_self _) has

/-- A boolean or numerical expression of the store is a feature. -/
theorem feature_ok {h : Handle} (has : s.Has h) (kind : h.kind.isFeature = true) :
    ∃ f, Feature.ofHandle? s h = some f ∧ feature s h = .ok f := by
  obtain ⟨t, stands⟩ := wf.represents has
  refine ⟨⟨h, s.complexity h, s.text h⟩, ?_, ?_⟩
  · rw [Feature.ofHandle?, if_pos kind, stands.complexity,
      Store.complexity_of_complexity? stands.complexity]
    rfl
  · rw [feature, if_pos kind, bind_ok (complexity_ok wf has), bind_ok (text_ok wf has)]
    rfl

end

end PlanFeatures.Strict
