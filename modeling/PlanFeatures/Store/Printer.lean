import PlanFeatures.Store.Basic

/-!
# Texts of expressions

An expression is written as the name of its rule, followed by its arguments in
parentheses if it has any: `c_some(r_primitive(on,0,1),c_primitive(clear,0))`.
There are no blanks.
-/

namespace PlanFeatures

/-- A name and its arguments. -/
def applicationText (name : String) (args : List String) : String :=
  if args.isEmpty then name else name ++ "(" ++ String.intercalate "," args ++ ")"

namespace Vocabulary

def predicateText (v : Vocabulary) (p : PredicateId) : String :=
  (v.predicate? p).elim "" Predicate.name

def constantText (v : Vocabulary) (k : ConstantId) : String := (v.constant? k).getD ""

/-- Texts of the arguments of a leaf. -/
def leafArguments (v : Vocabulary) : Leaf → List String
  | .conceptPrimitive p i => [v.predicateText p, toString i]
  | .rolePrimitive p i j => [v.predicateText p, toString i, toString j]
  | .booleanNullary p => [v.predicateText p]
  | .conceptOneOf k => [v.constantText k]
  | .conceptBot | .conceptTop | .roleTop => []

end Vocabulary

namespace Store

/-- Texts of the arguments of a node, given those of its operands. -/
def argumentTexts (s : Store) (operandText : Handle → String) : Node → List String
  | .leaf l => s.vocabulary.leafArguments l
  | .unary (.conceptProjection i) a => [operandText ⟨.role, a⟩, toString i]
  | node => node.operands.map operandText

/-- Text of an expression whose index is below the fuel. -/
def textBelow (s : Store) : (fuel : Nat) → Handle → String
  | 0, _ => ""
  | fuel + 1, h =>
    match s.node? h with
    | none => ""
    | some node => applicationText node.rule.name (s.argumentTexts (s.textBelow fuel) node)

/-- Text of an expression. -/
def text (s : Store) (h : Handle) : String := s.textBelow (h.index + 1) h

end Store
end PlanFeatures
