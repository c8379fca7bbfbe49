import PlanFeatures.Domain.Symbol
import PlanFeatures.Grammar.Rule
import PlanFeatures.Store.Pairing

/-!
# Nodes of expressions

An expression is a leaf or an operator applied to expressions.  The operators
form a signature over the four kinds: each takes operands of fixed kinds and
builds an expression of a fixed kind.  A rule of the grammar that applies to
concepts as well as to roles has an operator for each.

A node is one such application whose operands are given by their indices; the
kinds of the operands follow from the operator.
-/

namespace PlanFeatures

/-! ## Signature -/

/-- Expressions without operands. -/
inductive Leaf where
  /-- The objects at a position of the true atoms of a predicate. -/
  | conceptPrimitive (predicate : PredicateId) (position : Nat)
  | conceptBot
  | conceptTop
  /-- The object that a constant stands for. -/
  | conceptOneOf (constant : ConstantId)
  /-- The pairs of objects at two positions of the true atoms of a predicate. -/
  | rolePrimitive (predicate : PredicateId) (first second : Nat)
  | roleTop
  /-- Whether an atom of a predicate is true. -/
  | booleanNullary (predicate : PredicateId)
deriving DecidableEq, Repr

/-- Operators with one operand. -/
inductive UnaryOp where
  | conceptNot
  /-- The objects at a position, 0 or 1, of the pairs of a role. -/
  | conceptProjection (position : Nat)
  | roleInverse
  | roleNot
  | roleIdentity
  | roleClosure
  | roleReflexiveClosure
  | emptyConcept
  | emptyRole
  | countConcept
  | countRole
deriving DecidableEq, Repr

/-- Operators with two operands. -/
inductive BinaryOp where
  | conceptAnd
  | conceptOr
  | conceptDiff
  | conceptSome
  | conceptAll
  | conceptEqual
  | conceptSubset
  | roleAnd
  | roleOr
  | roleDiff
  | roleCompose
  | roleRestrict
  | roleClosureThrough
  | inclusionConcept
  | inclusionRole
deriving DecidableEq, Repr

namespace Leaf

def rule : Leaf → Rule
  | conceptPrimitive .. => .conceptPrimitive
  | conceptBot => .conceptBot
  | conceptTop => .conceptTop
  | conceptOneOf _ => .conceptOneOf
  | rolePrimitive .. => .rolePrimitive
  | roleTop => .roleTop
  | booleanNullary _ => .booleanNullary

/-- Numbers of the predicate or constant and of the positions. -/
def symbols : Leaf → List Nat
  | conceptPrimitive p i => [p.index, i, 0]
  | conceptOneOf k => [k.index, 0, 0]
  | rolePrimitive p i j => [p.index, i, j]
  | booleanNullary p => [p.index, 0, 0]
  | conceptBot | conceptTop | roleTop => [0, 0, 0]

end Leaf

namespace UnaryOp

def rule : UnaryOp → Rule
  | conceptNot => .conceptNot
  | conceptProjection _ => .conceptProjection
  | roleInverse => .roleInverse
  | roleNot => .roleNot
  | roleIdentity => .roleIdentity
  | roleClosure => .roleClosure
  | roleReflexiveClosure => .roleReflexiveClosure
  | emptyConcept | emptyRole => .booleanEmpty
  | countConcept | countRole => .numericalCount

/-- Kind of the operand. -/
def operand : UnaryOp → Kind
  | conceptNot | roleIdentity | emptyConcept | countConcept => .concept
  | conceptProjection _ | roleInverse | roleNot | roleClosure | roleReflexiveClosure | emptyRole
  | countRole => .role

def symbols : UnaryOp → List Nat
  | conceptProjection i => [i, 0, 0]
  | _ => [0, 0, 0]

/-- The operators that need nothing but their operand. -/
def plain : List UnaryOp :=
  [conceptNot, roleInverse, roleNot, roleIdentity, roleClosure, roleReflexiveClosure, emptyConcept,
   emptyRole, countConcept, countRole]

end UnaryOp

namespace BinaryOp

def rule : BinaryOp → Rule
  | conceptAnd => .conceptAnd
  | conceptOr => .conceptOr
  | conceptDiff => .conceptDiff
  | conceptSome => .conceptSome
  | conceptAll => .conceptAll
  | conceptEqual => .conceptEqual
  | conceptSubset => .conceptSubset
  | roleAnd => .roleAnd
  | roleOr => .roleOr
  | roleDiff => .roleDiff
  | roleCompose => .roleCompose
  | roleRestrict => .roleRestrict
  | roleClosureThrough => .roleClosureThrough
  | inclusionConcept | inclusionRole => .booleanInclusion

/-- Kind of the left operand. -/
def left : BinaryOp → Kind
  | conceptAnd | conceptOr | conceptDiff | inclusionConcept => .concept
  | _ => .role

/-- Kind of the right operand. -/
def right : BinaryOp → Kind
  | conceptAnd | conceptOr | conceptDiff | inclusionConcept | conceptSome | conceptAll
  | roleRestrict | roleClosureThrough => .concept
  | _ => .role

def all : List BinaryOp :=
  [conceptAnd, conceptOr, conceptDiff, conceptSome, conceptAll, conceptEqual, conceptSubset,
   roleAnd, roleOr, roleDiff, roleCompose, roleRestrict, roleClosureThrough, inclusionConcept,
   inclusionRole]

end BinaryOp

/-! ## Handles and nodes -/

/-- A stored expression: its kind and its index in the store, counted from 1. -/
structure Handle where
  kind : Kind
  index : Nat
deriving DecidableEq, Repr

/-- The letter of the kind and the index, as in `C@1`. -/
def Handle.text (h : Handle) : String := s!"{h.kind.letter}@{h.index}"

/-- An expression with operands given by their indices. -/
inductive Node where
  | leaf (leaf : Leaf)
  | unary (op : UnaryOp) (operand : Nat)
  | binary (op : BinaryOp) (left right : Nat)
  /-- Steps of a role from a concept to a concept. -/
  | distance (source role target : Nat)
deriving DecidableEq, Repr

namespace Node

def rule : Node → Rule
  | leaf l => l.rule
  | unary op _ => op.rule
  | binary op _ _ => op.rule
  | distance .. => .numericalDistance

def kind (n : Node) : Kind := n.rule.kind

/-- The operands from left to right. -/
def operands : Node → List Handle
  | leaf _ => []
  | unary op a => [⟨op.operand, a⟩]
  | binary op a b => [⟨op.left, a⟩, ⟨op.right, b⟩]
  | distance a r b => [⟨.concept, a⟩, ⟨.role, r⟩, ⟨.concept, b⟩]

/-- Numbers of the symbols that the node names, filled up with zeros. -/
def symbols : Node → List Nat
  | leaf l => l.symbols
  | unary op _ => op.symbols
  | binary .. | distance .. => [0, 0, 0]

/-! ## Hashes -/

/-- A number for each leaf and operator, and up to three words more. -/
def words : Node → Nat × Nat × Nat × Nat
  | leaf (.conceptPrimitive p i) => (0, p.index, i, 0)
  | leaf .conceptBot => (1, 0, 0, 0)
  | leaf .conceptTop => (2, 0, 0, 0)
  | leaf (.conceptOneOf k) => (3, k.index, 0, 0)
  | unary .conceptNot a => (4, a, 0, 0)
  | binary .conceptAnd a b => (5, a, b, 0)
  | binary .conceptOr a b => (6, a, b, 0)
  | binary .conceptDiff a b => (7, a, b, 0)
  | unary (.conceptProjection i) a => (8, a, i, 0)
  | binary .conceptSome a b => (9, a, b, 0)
  | binary .conceptAll a b => (10, a, b, 0)
  | binary .conceptEqual a b => (11, a, b, 0)
  | binary .conceptSubset a b => (12, a, b, 0)
  | leaf (.rolePrimitive p i j) => (13, p.index, i, j)
  | leaf .roleTop => (14, 0, 0, 0)
  | unary .roleInverse a => (15, a, 0, 0)
  | unary .roleNot a => (16, a, 0, 0)
  | binary .roleAnd a b => (17, a, b, 0)
  | binary .roleOr a b => (18, a, b, 0)
  | binary .roleDiff a b => (19, a, b, 0)
  | binary .roleCompose a b => (20, a, b, 0)
  | unary .roleIdentity a => (21, a, 0, 0)
  | binary .roleRestrict a b => (22, a, b, 0)
  | unary .roleClosure a => (23, a, 0, 0)
  | unary .roleReflexiveClosure a => (24, a, 0, 0)
  | leaf (.booleanNullary p) => (25, p.index, 0, 0)
  | unary .emptyConcept a => (26, a, 0, 0)
  | unary .emptyRole a => (27, a, 0, 0)
  | binary .inclusionConcept a b => (28, a, b, 0)
  | binary .inclusionRole a b => (29, a, b, 0)
  | unary .countConcept a => (30, a, 0, 0)
  | unary .countRole a => (31, a, 0, 0)
  | distance a r b => (32, a, r, b)
  | binary .roleClosureThrough a b => (33, a, b, 0)

/-- The number of the node's words. -/
def hash (n : Node) : UInt64 :=
  let (tag, a, b, c) := n.words
  pair4 tag.toUInt64 a.toUInt64 b.toUInt64 c.toUInt64

instance : Hashable Node := ⟨hash⟩

/-! ## Application of rules to expressions -/

/-- The node of a rule over given operands, if their number and kinds fit. -/
def ofOperands? (rule : Rule) : List Handle → Option Node
  | [a] =>
    (UnaryOp.plain.find? fun op => op.rule = rule ∧ op.operand = a.kind).map
      fun op => unary op a.index
  | [a, b] =>
    (BinaryOp.all.find? fun op => op.rule = rule ∧ op.left = a.kind ∧ op.right = b.kind).map
      fun op => binary op a.index b.index
  | [a, r, b] =>
    if rule = .numericalDistance ∧ a.kind = .concept ∧ r.kind = .role ∧ b.kind = .concept then
      some (distance a.index r.index b.index)
    else none
  | _ => none

end Node
end PlanFeatures
