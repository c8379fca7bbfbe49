import PlanFeatures.Domain.Vocabulary
import PlanFeatures.Grammar.Node
import PlanFeatures.Term.Diagnostic

/-!
# Refused expressions

Why an expression is not built.
-/

namespace PlanFeatures

/-- A use of a predicate that its arity does not allow. -/
inductive PredicateUse where
  | conceptPrimitive
  | rolePrimitive
  | booleanPrimitive
  | numericalPrimitive
  | position (i : Nat)
deriving DecidableEq, Repr

/-- What the use would need. -/
def PredicateUse.text : PredicateUse → String
  | conceptPrimitive => "a concept primitive needs arity 1"
  | rolePrimitive => "a role primitive needs arity 2"
  | booleanPrimitive => "a boolean primitive needs arity 0"
  | numericalPrimitive => "there are no numerical primitives"
  | position i => s!"position {i} is out of range"

/-- Why a text does not stand for an expression. -/
inductive ReadError where
  | malformed (fault : Term.Fault)
  | unknownRule (name : String)
  /-- The arguments are too few, too many or not symbols where symbols are due. -/
  | arguments (rule : Rule)
  | position (name : String)
deriving DecidableEq, Repr

def ReadError.message (text : String) : ReadError → String
  | malformed fault => fault.message text
  | unknownRule name => s!"unknown rule `{name}`"
  | arguments rule => s!"`{rule.name}` expects {rule.signature}"
  | position name => s!"`{name}` is not a position"

inductive ExpressionError where
  | invalidArity (predicate : Predicate) (use : PredicateUse)
  /-- The operands are too few, too many or of other kinds than the rule takes. -/
  | operandKinds (rule : Rule) (found : List Kind)
  /-- Roles have the positions 0 and 1 only. -/
  | projectionPosition (role : Handle) (position : Nat)
  /-- An expression of one kind is asked for, one of another kind is given. -/
  | otherKind (rule : Rule) (expected found : Kind)
  /-- The rule takes symbols. -/
  | notComposite (rule : Rule)
  | unknownPredicate (name : String)
  | unknownConstant (name : String)
  | unreadable (text : String) (cause : ReadError)
  /-- The store has no expression with the operand's index. -/
  | foreignOperand (operand : Handle)
deriving DecidableEq, Repr

def ExpressionError.message : ExpressionError → String
  | invalidArity p use => s!"predicate `{p.text}` cannot be used here: {use.text}"
  | operandKinds rule found =>
    let kinds := String.intercalate ", " (found.map Kind.name)
    s!"rule `{rule.name}` expects {rule.signature}, got ({kinds})"
  | projectionPosition role position =>
    let rule := Rule.conceptProjection.name
    let expected := "(role, position) with position 0 or 1"
    s!"rule `{rule}` expects {expected}, got ({role.text}, {position})"
  | otherKind rule expected found =>
    s!"rule `{rule.name}` expects to denote a {expected.name}, got ({found.name})"
  | notComposite rule =>
    s!"rule `{rule.name}` takes symbol arguments and cannot be built from sub-expressions"
  | unknownPredicate name => s!"unknown predicate `{name}`"
  | unknownConstant name => s!"unknown constant `{name}`"
  | unreadable text cause => s!"cannot parse `{text}`: {cause.message text}"
  | foreignOperand operand => s!"{operand.text} is not an expression of the store"

end PlanFeatures
