import PlanFeatures.Domain.Vocabulary
import PlanFeatures.Grammar.Node

/-!
# Candidates

The candidates of complexity 1 come from the vocabulary.  Those of complexity `k`
are the rules applied to kept concepts and roles of lower layers whose
complexities sum to `k - 1`.  `candidates` lists them in the order in which a run
considers them.
-/

namespace PlanFeatures

/-- Indices of the concepts and roles that were kept in one layer, in the order in
which they were kept. -/
structure Layer where
  concepts : List Nat
  roles : List Nat
deriving DecidableEq, Repr

namespace Layer

def empty : Layer := ⟨[], []⟩

def ofKind (l : Layer) : Kind → List Nat
  | .concept => l.concepts
  | .role => l.roles
  | .boolean | .numerical => []

/-- Adds an expression after the others; features are not kept in layers. -/
def push (l : Layer) (h : Handle) : Layer :=
  match h.kind with
  | .concept => { l with concepts := l.concepts ++ [h.index] }
  | .role => { l with roles := l.roles ++ [h.index] }
  | .boolean | .numerical => l

end Layer

/-! ## Pairs and triples of layers -/

/-- The pairs of positive numbers with a given sum, by increasing first number. -/
def splits (total : Nat) : List (Nat × Nat) :=
  (List.range' 1 (total - 1)).map fun i => (i, total - i)

/-- The pairs of two lists, by the first list. -/
def pairsOf {α β : Type} (as : List α) (bs : List β) : List (α × β) :=
  as.flatMap fun a => bs.map fun b => (a, b)

/-- The pairs of an element of a list and a later one. -/
def laterPairs {α : Type} : List α → List (α × α)
  | [] => []
  | a :: as => as.map (fun b => (a, b)) ++ laterPairs as

theorem mem_splits {total i j : Nat} : (i, j) ∈ splits total ↔ 0 < i ∧ 0 < j ∧ i + j = total := by
  simp only [splits, List.mem_map, List.mem_range'_1, Prod.mk.injEq]
  constructor
  · rintro ⟨k, hk, rfl, rfl⟩
    omega
  · rintro ⟨hi, hj, rfl⟩
    exact ⟨i, by omega, rfl, by omega⟩

theorem mem_pairsOf {α β : Type} {as : List α} {bs : List β} {a : α} {b : β} :
    (a, b) ∈ pairsOf as bs ↔ a ∈ as ∧ b ∈ bs := by
  simp [pairsOf]

/-! ## Leaves -/

/-- The number of positions of a predicate, as a word of 32 bits counts it. -/
def Predicate.positions (predicate : Predicate) : Nat := predicate.arity % UInt32.size

theorem Predicate.positions_le (predicate : Predicate) : predicate.positions ≤ predicate.arity :=
  Nat.mod_le predicate.arity UInt32.size

theorem Predicate.positions_eq {predicate : Predicate} (narrow : predicate.arity < UInt32.size) :
    predicate.positions = predicate.arity :=
  Nat.mod_eq_of_lt narrow

/-- The leaves that a rule builds from a vocabulary.  The positions of a role are
increasing, since the inverse gives the other ones. -/
def Vocabulary.leaves (v : Vocabulary) : Rule → List Leaf
  | .conceptPrimitive =>
    v.predicateList.flatMap fun (p, predicate) =>
      (List.range predicate.positions).map fun i => .conceptPrimitive p i
  | .conceptBot => [.conceptBot]
  | .conceptTop => [.conceptTop]
  | .conceptOneOf => v.constantList.map fun (k, _) => .conceptOneOf k
  | .rolePrimitive =>
    v.predicateList.flatMap fun (p, predicate) =>
      (laterPairs (List.range predicate.positions)).map fun (i, j) => .rolePrimitive p i j
  | .roleTop => [.roleTop]
  | .booleanNullary =>
    v.predicateList.filterMap fun (p, predicate) =>
      if predicate.arity = 0 then some (.booleanNullary p) else none
  | _ => []

/-! ## Composite expressions -/

/-- Whether the operator gives nothing new when it is applied to the same operand
twice. -/
def BinaryOp.isTrivialOnEqual : BinaryOp → Bool
  | conceptDiff | conceptSubset | roleDiff | inclusionConcept | inclusionRole => true
  | _ => false

/-- The closed layers; layer 1 is the first. -/
structure Frontier where
  layers : Array Layer
deriving DecidableEq, Repr

namespace Frontier

def empty : Frontier := ⟨#[]⟩

/-- Adds the next layer. -/
def close (f : Frontier) (l : Layer) : Frontier := ⟨f.layers.push l⟩

/-- The kept expressions of a kind and complexity. -/
def layer (f : Frontier) (kind : Kind) (k : Nat) : List Nat :=
  match k with
  | 0 => []
  | i + 1 => (f.layers[i]?.getD .empty).ofKind kind

/-- The pairs of operands from two layers.  Operands whose order does not matter
are paired once, each with the ones after it. -/
def operandPairs (f : Frontier) (op : BinaryOp) (i j : Nat) : List (Nat × Nat) :=
  let left := f.layer op.left i
  let right := f.layer op.right j
  if op.rule.isCommutative then
    if i < j then pairsOf left right else if i = j then laterPairs left else []
  else if op.isTrivialOnEqual then (pairsOf left right).filter fun (a, b) => a ≠ b
  else pairsOf left right

def unary (f : Frontier) (k : Nat) (op : UnaryOp) : List Node :=
  (f.layer op.operand (k - 1)).map fun a => .unary op a

def binary (f : Frontier) (k : Nat) (op : BinaryOp) : List Node :=
  (splits (k - 1)).flatMap fun (i, j) =>
    (f.operandPairs op i j).map fun (a, b) => .binary op a b

def projections (f : Frontier) (k : Nat) : List Node :=
  (f.layer .role (k - 1)).flatMap fun r =>
    [.unary (.conceptProjection 0) r, .unary (.conceptProjection 1) r]

def distances (f : Frontier) (k : Nat) : List Node :=
  (splits (k - 1)).flatMap fun (i, rest) =>
    (splits rest).flatMap fun (j, l) =>
      (f.layer .concept i).flatMap fun source =>
        (pairsOf (f.layer .role j) (f.layer .concept l)).map fun (role, target) =>
          .distance source role target

/-- The candidates of a rule with a complexity above 1. -/
def composites (f : Frontier) (rule : Rule) (k : Nat) : List Node :=
  match rule with
  | .conceptProjection => f.projections k
  | .numericalDistance => f.distances k
  | _ =>
    (UnaryOp.plain.filter fun op => op.rule = rule).flatMap (f.unary k) ++
      (BinaryOp.all.filter fun op => op.rule = rule).flatMap (f.binary k)

/-- The candidates of a rule with a complexity. -/
def candidates (f : Frontier) (v : Vocabulary) (rule : Rule) (k : Nat) : List Node :=
  if k = 1 then (v.leaves rule).map .leaf else f.composites rule k

end Frontier
end PlanFeatures
