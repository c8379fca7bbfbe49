import Std.Data.TreeMap
import PlanFeatures.Domain.State
import PlanFeatures.Meaning.Extension
import PlanFeatures.Store.Basic

/-!
# Evaluation in a state

`Node.denote` gives the extension of a node from those of its operands.
`Store.evaluate` evaluates an expression from the operands up, each expression
that it is made of once.
-/

namespace PlanFeatures

/-- Why an expression cannot be evaluated.  None of this happens to the
expressions of a store, in states over its vocabulary. -/
inductive EvalError where
  | noSuchExpression (h : Handle)
  /-- Nothing is known about an operand. -/
  | notEvaluated (h : Handle)
  /-- An expression denotes something of another kind than its handle says. -/
  | otherKind (h : Handle)
  /-- An extension is over another number of objects than the state has. -/
  | otherSize (h : Handle)
  | noSuchPosition (predicate : PredicateId) (position : Nat)
  | noSuchConstant (k : ConstantId)
  | noSuchObject (o : ObjectId)
deriving DecidableEq, Repr

namespace State

/-- The object at a position of an atom. -/
def objectAt (s : State) (a : Atom) (i : Nat) : Except EvalError (Fin s.objectCount) :=
  match a.objects[i]? with
  | none => .error (.noSuchPosition a.predicate i)
  | some o => if h : o.index < s.objectCount then .ok ⟨o.index, h⟩ else .error (.noSuchObject o)

/-- The true atoms of a predicate. -/
def atomsOf (s : State) (p : PredicateId) : List Atom :=
  s.trueAtoms.filter fun a => a.predicate = p

end State

/-! ## Nodes -/

section
variable (s : State)

/-- The extension of an expression without operands. -/
def Leaf.denote : Leaf → Except EvalError (Extension s.objectCount)
  | conceptPrimitive p i => do
    let set ← (s.atomsOf p).foldlM (fun set a => return set.insert (← s.objectAt a i)) ∅
    return .concept set
  | conceptBot => return .concept ∅
  | conceptTop => return .concept .full
  | conceptOneOf k => do
    if (s.problem.vocabulary.constant? k).isNone then throw (.noSuchConstant k)
    match s.problem.constantObject? k with
    | none => return .concept ∅
    | some o =>
      if h : o.index < s.objectCount then return .concept (ObjectSet.insert ∅ ⟨o.index, h⟩)
      else throw (.noSuchObject o)
  | rolePrimitive p i j => do
    let relation ← (s.atomsOf p).foldlM
      (fun relation a => return relation.insert (← s.objectAt a i) (← s.objectAt a j)) ∅
    return .role relation
  | roleTop => return .role .full
  | booleanNullary p => return .boolean !(s.atomsOf p).isEmpty

variable (operand : Handle → Except EvalError (Extension s.objectCount))

/-- The set that a concept denotes. -/
def operandSet (i : Nat) : Except EvalError (ObjectSet s.objectCount) := do
  match ← operand ⟨.concept, i⟩ with
  | .concept set => return set
  | _ => throw (.otherKind ⟨.concept, i⟩)

/-- The relation that a role denotes. -/
def operandRelation (i : Nat) : Except EvalError (Relation s.objectCount) := do
  match ← operand ⟨.role, i⟩ with
  | .role relation => return relation
  | _ => throw (.otherKind ⟨.role, i⟩)

/-- The extension of an operator applied to the operand with an index. -/
def UnaryOp.denote (op : UnaryOp) (a : Nat) : Except EvalError (Extension s.objectCount) := do
  match op with
  | conceptNot => return .concept (← operandSet s operand a).compl
  | conceptProjection position =>
    let r ← operandRelation s operand a
    return .concept <|
      if position = 0 then ObjectSet.filter fun x => !(r.successors x).isEmpty
      else r.image .full
  | roleInverse => return .role (← operandRelation s operand a).inverse
  | roleNot => return .role (← operandRelation s operand a).compl
  | roleIdentity => return .role (.identity (← operandSet s operand a))
  | roleClosure => return .role (← operandRelation s operand a).closure
  | roleReflexiveClosure => return .role (← operandRelation s operand a).reflexiveClosure
  | emptyConcept => return .boolean (← operandSet s operand a).isEmpty
  | emptyRole => return .boolean (← operandRelation s operand a).isEmpty
  | countConcept => return .numerical (← operandSet s operand a).card.toUInt32
  | countRole => return .numerical (← operandRelation s operand a).card.toUInt32

/-- The extension of an operator applied to the operands with two indices. -/
def BinaryOp.denote (op : BinaryOp) (a b : Nat) :
    Except EvalError (Extension s.objectCount) := do
  match op with
  | conceptAnd => return .concept ((← operandSet s operand a) ∩ (← operandSet s operand b))
  | conceptOr => return .concept ((← operandSet s operand a) ∪ (← operandSet s operand b))
  | conceptDiff => return .concept ((← operandSet s operand a) \ (← operandSet s operand b))
  | conceptSome =>
    let r ← operandRelation s operand a
    let c ← operandSet s operand b
    return .concept (.filter fun x => (r.successors x).intersects c)
  | conceptAll =>
    let r ← operandRelation s operand a
    let c ← operandSet s operand b
    return .concept (.filter fun x => (r.successors x).isSubset c)
  | conceptEqual =>
    let r ← operandRelation s operand a
    let t ← operandRelation s operand b
    return .concept (.filter fun x => r.successors x = t.successors x)
  | conceptSubset =>
    let r ← operandRelation s operand a
    let t ← operandRelation s operand b
    return .concept (.filter fun x => (r.successors x).isSubset (t.successors x))
  | roleAnd => return .role ((← operandRelation s operand a) ∩ (← operandRelation s operand b))
  | roleOr => return .role ((← operandRelation s operand a) ∪ (← operandRelation s operand b))
  | roleDiff => return .role ((← operandRelation s operand a) \ (← operandRelation s operand b))
  | roleCompose =>
    return .role ((← operandRelation s operand a).compose (← operandRelation s operand b))
  | roleRestrict =>
    return .role ((← operandRelation s operand a).restrict (← operandSet s operand b))
  | roleClosureThrough =>
    return .role ((← operandRelation s operand a).closureThrough (← operandSet s operand b))
  | inclusionConcept =>
    return .boolean ((← operandSet s operand a).isSubset (← operandSet s operand b))
  | inclusionRole =>
    return .boolean ((← operandRelation s operand a).isSubset (← operandRelation s operand b))

/-- The extension of a node. -/
def Node.denote : Node → Except EvalError (Extension s.objectCount)
  | leaf l => l.denote s
  | unary op a => op.denote s operand a
  | binary op a b => op.denote s operand a b
  | distance a r b => do
    let source ← operandSet s operand a
    let relation ← operandRelation s operand r
    let target ← operandSet s operand b
    return .numerical (Relation.distance source relation target)

end

/-! ## Expressions -/

/-- Extensions of expressions of a store, by index. -/
abbrev Memo (n : Nat) := Std.TreeMap Nat (Extension n)

/-- The extension of an expression that is in the memo. -/
def Memo.find {n : Nat} (memo : Memo n) (h : Handle) : Except EvalError (Extension n) :=
  match memo[h.index]? with
  | some d => .ok d
  | none => .error (.notEvaluated h)

namespace Store

/-- Adds an expression whose index is below the fuel, and all it is made of, to
the memo. -/
def evaluateBelow (store : Store) (s : State) :
    (fuel : Nat) → Memo s.objectCount → Handle → Except EvalError (Memo s.objectCount)
  | 0, _, h => .error (.noSuchExpression h)
  | fuel + 1, memo, h =>
    if memo.contains h.index then .ok memo
    else
      match store.node? h with
      | none => .error (.noSuchExpression h)
      | some node => do
        let memo ← node.operands.foldlM (store.evaluateBelow s fuel) memo
        return memo.insert h.index (← node.denote s memo.find)

/-- The extension of an expression in a state. -/
def evaluate (store : Store) (h : Handle) (s : State) :
    Except EvalError (Extension s.objectCount) := do
  let memo ← store.evaluateBelow s (h.index + 1) ∅ h
  let d ← memo.find h
  if d.kind = h.kind then return d else throw (.otherKind h)

end Store
end PlanFeatures
