import PlanFeatures.Store.Basic

/-!
# Constructors of expressions

Each constructor checks what its rule asks of symbols and operands and adds the
expression to the store.  A failing constructor leaves the store as it was.
-/

namespace PlanFeatures.Build

/-- The predicate with an index. -/
def declared (p : PredicateId) : Build Predicate := do
  match (← get).vocabulary.predicate? p with
  | some predicate => return predicate
  | none => throw (.unknownPredicate p.text)

/-- Refuses a position that atoms of the predicate do not have. -/
def checkPosition (predicate : Predicate) (i : Nat) : Build Unit :=
  if i < predicate.arity then return () else throw (.invalidArity predicate (.position i))

/-- An expression without operands. -/
def leaf (l : Leaf) : Build Handle := do
  match l with
  | .conceptPrimitive p i =>
    checkPosition (← declared p) i
  | .rolePrimitive p i j =>
    let predicate ← declared p
    checkPosition predicate i
    checkPosition predicate j
  | .booleanNullary p =>
    let predicate ← declared p
    if predicate.arity ≠ 0 then throw (.invalidArity predicate .booleanPrimitive)
  | .conceptOneOf k =>
    if ((← get).vocabulary.constant? k).isNone then throw (.unknownConstant k.text)
  | .conceptBot | .conceptTop | .roleTop => pure ()
  intern (.leaf l)

/-- The primitive of a kind over a predicate: a concept for arity 1, a role for
arity 2, a boolean for arity 0. -/
def primitive (p : PredicateId) (kind : Kind) : Build Handle := do
  let predicate ← declared p
  match kind with
  | .concept =>
    if predicate.arity = 1 then leaf (.conceptPrimitive p 0)
    else throw (.invalidArity predicate .conceptPrimitive)
  | .role =>
    if predicate.arity = 2 then leaf (.rolePrimitive p 0 1)
    else throw (.invalidArity predicate .rolePrimitive)
  | .boolean =>
    if predicate.arity = 0 then leaf (.booleanNullary p)
    else throw (.invalidArity predicate .booleanPrimitive)
  | .numerical => throw (.invalidArity predicate .numericalPrimitive)

/-- The objects at a position of a role's pairs. -/
def projection (role : Handle) (position : Nat) : Build Handle := do
  if role.kind ≠ .role then throw (.operandKinds .conceptProjection [role.kind])
  if 1 < position then throw (.projectionPosition role position)
  intern (.unary (.conceptProjection position) role.index)

/-- A rule applied to expressions. -/
def composite (rule : Rule) (operands : List Handle) : Build Handle :=
  if rule.takesSymbols then throw (.notComposite rule)
  else
    match Node.ofOperands? rule operands with
    | some node => intern node
    | none => throw (.operandKinds rule (operands.map Handle.kind))

end PlanFeatures.Build
