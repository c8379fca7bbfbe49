import PlanFeatures.Meaning.Evaluation
import PlanFeatures.Store.Printer

/-!
# Features

A feature is a boolean or numerical expression with its text and complexity.
-/

namespace PlanFeatures

structure Feature where
  handle : Handle
  complexity : Nat
  text : String
deriving DecidableEq, Repr

namespace Feature

/-- The feature that an expression is; concepts and roles are none. -/
def ofHandle? (store : Store) (h : Handle) : Option Feature :=
  if h.kind.isFeature then
    (store.complexity? h).map fun complexity => ⟨h, complexity, store.text h⟩
  else none

/-- The value of a feature in a state. -/
def value (f : Feature) (store : Store) (s : State) : Except EvalError FeatureValue := do
  match FeatureValue.ofExtension? (← store.evaluate f.handle s) with
  | some v => return v
  | none => throw (.otherKind f.handle)

end Feature
end PlanFeatures
