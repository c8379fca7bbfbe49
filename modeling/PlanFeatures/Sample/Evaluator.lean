import PlanFeatures.Meaning.Evaluation
import PlanFeatures.Sample.Cache

/-!
# Evaluation over a sample

A sample is a list of states.  The vector of an expression holds what it denotes
in each of them, in their order.  An evaluator remembers the vectors that it has
computed, so each expression is evaluated once for the sample.
-/

namespace PlanFeatures

/-- What an expression denotes in the states of a sample. -/
abbrev ExtensionVector := List SizedExtension

structure Evaluator where
  states : List State
  cache : Cache ExtensionVector

namespace Evaluator

def new (states : List State) : Evaluator := ⟨states, .empty⟩

/-- What an expression whose vector is known denotes in the state with a number. -/
def known (cache : Cache ExtensionVector) (s : State) (i : Nat) (h : Handle) :
    Except EvalError (Extension s.objectCount) :=
  match (cache.peek? h.index).bind (·[i]?) with
  | none => .error (.notEvaluated h)
  | some v =>
    if size : v.size = s.objectCount then .ok (size ▸ v.extension) else .error (.otherSize h)

/-- The vector of a node whose operands have known vectors. -/
def compute (e : Evaluator) (node : Node) : Except EvalError ExtensionVector :=
  e.states.zipIdx.mapM fun (s, i) => return ⟨_, ← node.denote s (known e.cache s i)⟩

/-- Makes the vector of an expression known. -/
def remember (e : Evaluator) (h : Handle) (vector : ExtensionVector) : Evaluator :=
  { e with cache := e.cache.insert h.index vector }

end Evaluator

/-- Evaluation with an evaluator; a failure keeps what was counted and remembered
before it. -/
abbrev Sampling := ExceptT EvalError (StateM Evaluator)

namespace Sampling

/-- The known vector of an expression; the look-up is counted. -/
def lookUp (h : Handle) : Sampling (Option ExtensionVector) :=
  modifyGet fun e =>
    let (vector, cache) := e.cache.get h.index
    (vector, { e with cache })

/-- The vector of an expression whose index is below the fuel. -/
def vectorBelow (store : Store) : (fuel : Nat) → Handle → Sampling ExtensionVector
  | 0, h => throw (.noSuchExpression h)
  | fuel + 1, h => do
    match ← lookUp h with
    | some vector => return vector
    | none =>
      match store.node? h with
      | none => throw (.noSuchExpression h)
      | some node =>
        node.operands.forM fun operand => discard (vectorBelow store fuel operand)
        let vector ← liftExcept ((← get).compute node)
        modify fun e => e.remember h vector
        return vector
where
  liftExcept {α : Type} : Except EvalError α → Sampling α
    | .ok a => return a
    | .error e => throw e

/-- The vector of an expression of a store. -/
def vector (store : Store) (h : Handle) : Sampling ExtensionVector :=
  vectorBelow store (h.index + 1) h

end Sampling
end PlanFeatures
