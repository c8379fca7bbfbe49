import PlanFeatures.Store.UniqueTable
import PlanFeatures.Store.Error

/-!
# Stores of expressions

A store keeps every expression once.  The operands of an expression are earlier
expressions of the store, so their indices are smaller.  Two operands whose order
does not matter are kept in structural order, which depends on the expressions
alone and not on their indices; `Store.order` is that order.
-/

namespace PlanFeatures

structure Store where
  vocabulary : Vocabulary
  table : UniqueTable Node
  /-- The number of rule applications in the expression with index `i` is at place
  `i - 1`. -/
  complexities : Array Nat
deriving Repr

namespace Store

/-- The exponent for the number of buckets when none is asked for. -/
def defaultBits : Nat := 12

/-- A store without expressions and with `2 ^ bits` buckets, unless that is too
many. -/
def empty? (vocabulary : Vocabulary) (bits : Nat) : Option Store :=
  (UniqueTable.empty? bits).map fun table => ⟨vocabulary, table, #[]⟩

def size (s : Store) : Nat := s.table.size

def isEmpty (s : Store) : Bool := s.table.isEmpty

def bucketCount (s : Store) : Nat := s.table.bucketCount

def contains (s : Store) (h : Handle) : Bool := 1 ≤ h.index ∧ h.index ≤ s.size

def node? (s : Store) (h : Handle) : Option Node := s.table.get? h.index

/-- Number of rule applications in an expression. -/
def complexity? (s : Store) (h : Handle) : Option Nat :=
  match h.index with
  | 0 => none
  | i + 1 => s.complexities[i]?

def complexity (s : Store) (h : Handle) : Nat := (s.complexity? h).getD 0

/-- All expressions in the order in which they were added. -/
def handles (s : Store) : List Handle := s.table.toList.map fun (i, node) => ⟨node.kind, i⟩

/-! ## Structural order -/

/-- From the first number on; a list that ends earlier comes first. -/
def compareSymbols : List Nat → List Nat → Ordering
  | [], [] => .eq
  | [], _ :: _ => .lt
  | _ :: _, [] => .gt
  | a :: as, b :: bs => (compare a b).then (compareSymbols as bs)

/-- From the first operand on, first by kind; a list that ends earlier comes
first. -/
def compareOperands (order : Handle → Handle → Ordering) : List Handle → List Handle → Ordering
  | [], [] => .eq
  | [], _ :: _ => .lt
  | _ :: _, [] => .gt
  | a :: as, b :: bs =>
    ((compare a.kind b.kind).then (order a b)).then (compareOperands order as bs)

/-- The structural order of expressions whose indices are below the fuel: by rule,
then by symbols, then by operands. -/
def orderBelow (s : Store) : (fuel : Nat) → Handle → Handle → Ordering
  | 0, _, _ => .eq
  | fuel + 1, a, b =>
    if a = b then .eq
    else
      match s.node? a, s.node? b with
      | some x, some y =>
        ((compare x.rule y.rule).then (compareSymbols x.symbols y.symbols)).then
          (compareOperands (s.orderBelow fuel) x.operands y.operands)
      | _, _ => .eq

/-- The structural order of two expressions. -/
def order (s : Store) (a b : Handle) : Ordering := s.orderBelow (a.index + 1) a b

/-- The structural order; expressions that the store does not have are equal to
themselves and not comparable with others. -/
def order? (s : Store) (a b : Handle) : Option Ordering :=
  if a = b then some .eq
  else if s.contains a ∧ s.contains b then some (s.order a b)
  else none

/-- Puts two operands whose order does not matter in structural order. -/
def canonical (s : Store) : Node → Node
  | .binary op a b =>
    if op.rule.isCommutative ∧ s.order ⟨op.left, a⟩ ⟨op.right, b⟩ = .gt then .binary op b a
    else .binary op a b
  | node => node

/-! ## Adding expressions -/

/-- The handle of an expression whose operands are in the store; the expression is
added if it is new. -/
def insert (s : Store) (node : Node) : Handle × Store :=
  let node := s.canonical node
  let complexity := node.operands.foldr (fun h n => s.complexity h + n) 1
  let ⟨vocabulary, table, complexities⟩ := s
  let size := table.size
  let (index, table) := table.put node
  let complexities := if size < index then complexities.push complexity else complexities
  (⟨node.kind, index⟩, ⟨vocabulary, table, complexities⟩)

end Store

/-- Building expressions in a store.  A failure keeps what was added before it. -/
abbrev Build := ExceptT ExpressionError (StateM Store)

namespace Build

/-- The handle of an expression, whose operands have to be in the store. -/
def intern (node : Node) : Build Handle := do
  let store ← get
  match node.operands.find? fun h => !store.contains h with
  | some h => throw (.foreignOperand h)
  | none => modifyGet fun store => store.insert node

end Build
end PlanFeatures
