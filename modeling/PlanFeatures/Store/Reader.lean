import PlanFeatures.Store.Constructors

/-!
# Reading expressions

A text is read as a term, and the term is built from the inside out, its
arguments from left to right.  When an argument is refused, the expressions built
before it stay in the store.
-/

namespace PlanFeatures

/-- A text without the plus sign that may stand before it. -/
def withoutPlus : List Char → List Char
  | '+' :: cs => cs
  | cs => cs

/-- A decimal numeral below `UInt32.size`, which a plus sign may stand before. -/
def readPosition? (name : String) : Option Nat :=
  let digits := withoutPlus name.toList
  if digits.isEmpty ∨ ¬ digits.all Char.isDigit then none
  else
    let n := Nat.ofDigitChars 10 digits 0
    if n < UInt32.size then some n else none

namespace Build

/-- Refuses the text that is being read. -/
def refuse {α : Type} (text : String) (cause : ReadError) : Build α :=
  throw (.unreadable text cause)

/-- A term that has to be a name without arguments. -/
def readSymbol (text : String) (rule : Rule) (t : Term) : Build String :=
  match t.symbol? with
  | some name => return name
  | none => refuse text (.arguments rule)

def readPosition (text : String) (rule : Rule) (t : Term) : Build Nat := do
  match readPosition? (← readSymbol text rule t) with
  | some i => return i
  | none => refuse text (.position t.name)

def readPredicate (text : String) (rule : Rule) (t : Term) : Build PredicateId := do
  let name ← readSymbol text rule t
  match (← get).vocabulary.findPredicate? name with
  | some p => return p
  | none => throw (.unknownPredicate name)

def readConstant (text : String) (rule : Rule) (t : Term) : Build ConstantId := do
  let name ← readSymbol text rule t
  match (← get).vocabulary.findConstant? name with
  | some k => return k
  | none => throw (.unknownConstant name)

mutual

/-- Builds the expression that a term stands for. -/
def ofTerm (text : String) : Term → Build Handle
  | .node name args => do
    let some rule := Rule.ofName? name | refuse text (.unknownRule name)
    match rule, args with
    | .conceptPrimitive, [p, i] =>
      leaf (.conceptPrimitive (← readPredicate text rule p) (← readPosition text rule i))
    | .rolePrimitive, [p, i, j] =>
      leaf (.rolePrimitive (← readPredicate text rule p) (← readPosition text rule i)
        (← readPosition text rule j))
    | .booleanNullary, [p] => leaf (.booleanNullary (← readPredicate text rule p))
    | .conceptOneOf, [k] => leaf (.conceptOneOf (← readConstant text rule k))
    | .conceptProjection, [r, i] =>
      let role ← ofTerm text r
      if role.kind ≠ .role then throw (.operandKinds rule [role.kind])
      projection role (← readPosition text rule i)
    | .conceptBot, [] => leaf .conceptBot
    | .conceptTop, [] => leaf .conceptTop
    | .roleTop, [] => leaf .roleTop
    | rule, args =>
      if rule.takesSymbols then refuse text (.arguments rule)
      else composite rule (← ofTerms text args)

/-- Builds the expressions of several terms from left to right. -/
def ofTerms (text : String) : List Term → Build (List Handle)
  | [] => return []
  | t :: ts => return (← ofTerm text t) :: (← ofTerms text ts)

end

/-- The expression that a text stands for. -/
def read (text : String) : Build Handle :=
  match Term.parse text with
  | .ok t => ofTerm text t
  | .error fault => refuse text (.malformed fault)

/-- The expression of a kind that a text stands for. -/
def readKind (expected : Kind) (text : String) : Build Handle := do
  let h ← read text
  if h.kind = expected then return h
  else
    match (← get).node? h with
    | some node => throw (.otherKind node.rule expected h.kind)
    | none => throw (.foreignOperand h)

end Build
end PlanFeatures
