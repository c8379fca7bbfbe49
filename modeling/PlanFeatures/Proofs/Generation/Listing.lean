import Mathlib.Data.List.Flatten
import PlanFeatures.Proofs.Generation.Agenda
import PlanFeatures.Proofs.Strict.Candidates

/-!
# The list of candidates

The candidates of a rule with a complexity above 1 are exactly the nodes of the rule over
operands whose layers add up, each of them once.  They come in the order of the layers of
their operands and, within the same layers, of the operands' positions.
-/

namespace PlanFeatures

/-- How the operands of an operator are combined. -/
inductive Combination where
  /-- Two different operands, in one of both orders. -/
  | unordered
  /-- Two different operands, in both orders. -/
  | different
  /-- Any two operands. -/
  | any
deriving DecidableEq, Repr

def BinaryOp.combination : BinaryOp → Combination
  | conceptAnd | conceptOr | conceptEqual | roleAnd | roleOr => .unordered
  | conceptDiff | conceptSubset | roleDiff | inclusionConcept | inclusionRole => .different
  | conceptSome | conceptAll | roleCompose | roleRestrict | roleClosureThrough => .any

theorem BinaryOp.isCommutative_iff {op : BinaryOp} :
    op.rule.isCommutative = true ↔ op.combination = .unordered := by
  cases op <;> decide

/-! ## Positions in a list -/

theorem position_unique {as : List Nat} (nodup : as.Nodup) {x y a : Nat}
    (first : as[x]? = some a) (second : as[y]? = some a) : x = y := by
  obtain ⟨inside, _⟩ := List.getElem?_eq_some_iff.mp first
  exact (List.getElem?_inj inside nodup).mp (first.trans second.symm)

/-- The elements of a list come in the order of their positions. -/
theorem positions_increase {as : List Nat} (nodup : as.Nodup) :
    as.Pairwise fun a b => ∀ x y : Nat, as[x]? = some a → as[y]? = some b → x < y := by
  refine List.pairwise_iff_getElem.mpr fun x y insideX insideY less x' y' first second => ?_
  rw [← position_unique nodup (List.getElem?_eq_getElem insideX) first,
    ← position_unique nodup (List.getElem?_eq_getElem insideY) second]
  exact less

/-- Pairs come in the order of their first elements, those with one first element in that of
their second ones. -/
theorem pairwise_pairsOf {α β : Type} {R : α → α → Prop} {S : β → β → Prop} {as : List α}
    {bs : List β} (first : as.Pairwise R) (second : bs.Pairwise S) :
    (pairsOf as bs).Pairwise fun p q => R p.1 q.1 ∨ p.1 = q.1 ∧ S p.2 q.2 := by
  refine List.pairwise_flatMap.mpr ⟨fun a _ => ?_, first.imp fun {a a'} before p inA q inA' => ?_⟩
  · exact List.pairwise_map.mpr (second.imp fun before => Or.inr ⟨rfl, before⟩)
  · obtain ⟨b, _, rfl⟩ := List.mem_map.mp inA
    obtain ⟨b', _, rfl⟩ := List.mem_map.mp inA'
    exact Or.inl before

theorem laterPairs_sublist {α : Type} (as : List α) : (laterPairs as).Sublist (pairsOf as as) := by
  induction as with
  | nil => exact List.Sublist.slnil
  | cons a rest ih =>
    have later : (pairsOf rest rest).Sublist (pairsOf rest (a :: rest)) :=
      List.Sublist.flatMap_right _ fun b _ => (List.sublist_cons_self _ _).map _
    rw [laterPairs, pairsOf, List.flatMap_cons]
    exact ((List.sublist_cons_self a rest).map _).append (ih.trans later)

theorem splits_increase (total : Nat) : (splits total).Pairwise fun p q => p.1 < q.1 :=
  List.pairwise_map.mpr (List.pairwise_lt_range' 1)

namespace Frontier
variable {f : Frontier} {v : Vocabulary} {rule : Rule} {k : Nat}

/-! ## Places -/

/-- The place of a node: the numbers of the operands' layers, without the last, which the sum
determines, then the positions of the operands in their layers. -/
inductive Place (f : Frontier) : Node → List Nat → Prop where
  | unary {op : UnaryOp} {i x a : Nat} (operand : (f.layer op.operand i)[x]? = some a) :
    f.Place (.unary op a) (i :: x :: op.symbols)
  | binary {op : BinaryOp} {i j x y a b : Nat} (left : (f.layer op.left i)[x]? = some a)
    (right : (f.layer op.right j)[y]? = some b) : f.Place (.binary op a b) [i, x, y]
  | distance {i j l x y z a r b : Nat} (source : (f.layer .concept i)[x]? = some a)
    (role : (f.layer .role j)[y]? = some r) (target : (f.layer .concept l)[z]? = some b) :
    f.Place (.distance a r b) [i, j, x, y, z]

/-- Of two nodes over operands of the same kinds, the first has the smaller place. -/
def Before (f : Frontier) (m n : Node) : Prop :=
  m.operands.map Handle.kind = n.operands.map Handle.kind →
    ∀ p q, f.Place m p → f.Place n q → p < q

/-- Operands for an operator from two layers whose numbers have a sum. -/
def Sums (f : Frontier) (op : BinaryOp) (total a b : Nat) : Prop :=
  ∃ i j, i + j = total ∧ a ∈ f.layer op.left i ∧ b ∈ f.layer op.right j

/-- The nodes are those of a rule over operands from layers whose numbers have a sum. -/
structure Lists (f : Frontier) (rule : Rule) (total : Nat) (nodes : List Node) : Prop where
  once : nodes.Nodup
  leaf : ∀ l, .leaf l ∉ nodes
  unary : ∀ op a, .unary op a ∈ nodes
    ↔ op.rule = rule ∧ op.Declared ∧ a ∈ f.layer op.operand total
  unordered : ∀ op, op.combination = .unordered → ∀ a b,
    (.binary op a b ∈ nodes ∨ .binary op b a ∈ nodes
      ↔ op.rule = rule ∧ a ≠ b ∧ f.Sums op total a b) ∧
    ¬ (.binary op a b ∈ nodes ∧ .binary op b a ∈ nodes)
  different : ∀ op, op.combination = .different → ∀ a b, .binary op a b ∈ nodes
    ↔ op.rule = rule ∧ a ≠ b ∧ f.Sums op total a b
  any : ∀ op, op.combination = .any → ∀ a b, .binary op a b ∈ nodes
    ↔ op.rule = rule ∧ f.Sums op total a b
  distance : ∀ a r b, .distance a r b ∈ nodes
    ↔ rule = .numericalDistance ∧ ∃ i j l, i + j + l = total ∧ a ∈ f.layer .concept i ∧
      r ∈ f.layer .role j ∧ b ∈ f.layer .concept l
  placed : ∀ n ∈ nodes, ∃ p, f.Place n p
  ordered : nodes.Pairwise f.Before

theorem Place.of_unary (separate : f.Separate) {op : UnaryOp} {i a : Nat} {p : List Nat}
    (member : a ∈ f.layer op.operand i) (place : f.Place (.unary op a) p) :
    ∃ x, p = i :: x :: op.symbols ∧ (f.layer op.operand i)[x]? = some a := by
  cases place with
  | unary operand =>
    obtain rfl := separate.apart (List.mem_of_getElem? operand) member
    exact ⟨_, rfl, operand⟩

theorem Place.of_binary (separate : f.Separate) {op : BinaryOp} {i j a b : Nat} {p : List Nat}
    (memberA : a ∈ f.layer op.left i) (memberB : b ∈ f.layer op.right j)
    (place : f.Place (.binary op a b) p) :
    ∃ x y, p = [i, x, y] ∧ (f.layer op.left i)[x]? = some a ∧
      (f.layer op.right j)[y]? = some b := by
  cases place with
  | binary left right =>
    obtain rfl := separate.apart (List.mem_of_getElem? left) memberA
    obtain rfl := separate.apart (List.mem_of_getElem? right) memberB
    exact ⟨_, _, rfl, left, right⟩

theorem Place.of_distance (separate : f.Separate) {i j l a r b : Nat} {p : List Nat}
    (memberA : a ∈ f.layer .concept i) (memberR : r ∈ f.layer .role j)
    (memberB : b ∈ f.layer .concept l) (place : f.Place (.distance a r b) p) :
    ∃ x y z, p = [i, j, x, y, z] ∧ (f.layer .concept i)[x]? = some a ∧
      (f.layer .role j)[y]? = some r ∧ (f.layer .concept l)[z]? = some b := by
  cases place with
  | distance source role target =>
    obtain rfl := separate.apart (List.mem_of_getElem? source) memberA
    obtain rfl := separate.apart (List.mem_of_getElem? role) memberR
    obtain rfl := separate.apart (List.mem_of_getElem? target) memberB
    exact ⟨_, _, _, rfl, source, role, target⟩

theorem operandPairs_sublist (op : BinaryOp) (i j : Nat) :
    (f.operandPairs op i j).Sublist (pairsOf (f.layer op.left i) (f.layer op.right j)) := by
  unfold operandPairs
  split
  next commutative =>
    split
    · exact List.Sublist.refl _
    · split
      next equal =>
        rw [← equal, ← BinaryOp.left_eq_right commutative]
        exact laterPairs_sublist _
      next => exact List.nil_sublist _
  next =>
    split
    · exact List.filter_sublist
    · exact List.Sublist.refl _

theorem mem_splits_of_layers {op : BinaryOp} {i j total a b : Nat} (left : a ∈ f.layer op.left i)
    (right : b ∈ f.layer op.right j) (sum : i + j = total) : (i, j) ∈ splits total :=
  mem_splits.mpr ⟨pos_of_mem_layer left, pos_of_mem_layer right, sum⟩

/-! ## The order of the candidates -/

section
variable (separate : f.Separate)
include separate

theorem ordered_unary (op : UnaryOp) : (f.unary k op).Pairwise f.Before := by
  have positions := positions_increase (separate.nodup op.operand (k - 1))
  refine List.pairwise_map.mpr (positions.imp_of_mem ?_)
  intro a b memberA memberB increase _ p q placeA placeB
  obtain ⟨x, rfl, atX⟩ := placeA.of_unary separate memberA
  obtain ⟨y, rfl, atY⟩ := placeB.of_unary separate memberB
  have less := increase x y atX atY
  exact List.cons_lt_cons_iff.mpr (Or.inr ⟨rfl, List.cons_lt_cons_iff.mpr (Or.inl less)⟩)

theorem ordered_projections : (f.projections k).Pairwise f.Before := by
  have positions := positions_increase (separate.nodup .role (k - 1))
  refine List.pairwise_flatMap.mpr ⟨?_, positions.imp_of_mem ?_⟩
  · intro r member
    refine List.pairwise_pair.mpr fun _ p q first second => ?_
    obtain ⟨x, rfl, atX⟩ := first.of_unary separate member
    obtain ⟨y, rfl, atY⟩ := second.of_unary separate member
    obtain rfl := position_unique (separate.nodup _ _) atX atY
    simp [List.cons_lt_cons_iff, UnaryOp.symbols]
  · intro r s memberR memberS increase m inR n inS _ p q placeR placeS
    have shape : ∀ {t : Nat} {node : Node},
        node ∈ [Node.unary (.conceptProjection 0) t, .unary (.conceptProjection 1) t] →
        ∃ i, node = .unary (.conceptProjection i) t := by
      intro t node member
      simp only [List.mem_cons, List.not_mem_nil, or_false] at member
      rcases member with rfl | rfl
      · exact ⟨0, rfl⟩
      · exact ⟨1, rfl⟩
    obtain ⟨_, rfl⟩ := shape inR
    obtain ⟨_, rfl⟩ := shape inS
    obtain ⟨x, rfl, atX⟩ := placeR.of_unary separate memberR
    obtain ⟨y, rfl, atY⟩ := placeS.of_unary separate memberS
    have less := increase x y atX atY
    exact List.cons_lt_cons_iff.mpr (Or.inr ⟨rfl, List.cons_lt_cons_iff.mpr (Or.inl less)⟩)

theorem ordered_binary (op : BinaryOp) : (f.binary k op).Pairwise f.Before := by
  refine List.pairwise_flatMap.mpr ⟨?_, (splits_increase _).imp ?_⟩
  · rintro ⟨i, j⟩ _
    have positions := pairwise_pairsOf (positions_increase (separate.nodup op.left i))
      (positions_increase (separate.nodup op.right j))
    refine List.pairwise_map.mpr ((positions.sublist (operandPairs_sublist op i j)).imp_of_mem ?_)
    rintro ⟨a, b⟩ ⟨a', b'⟩ pair pair' increase _ p q place place'
    obtain ⟨left, right, _⟩ := of_operandPairs separate pair
    obtain ⟨left', right', _⟩ := of_operandPairs separate pair'
    obtain ⟨x, y, rfl, atX, atY⟩ := place.of_binary separate left right
    obtain ⟨x', y', rfl, atX', atY'⟩ := place'.of_binary separate left' right'
    have less : x < x' ∨ x = x' ∧ y < y' := by
      rcases increase with first | ⟨same, second⟩
      · exact Or.inl (first x x' atX atX')
      · have same : a = a' := same
        exact Or.inr ⟨position_unique (separate.nodup _ _) atX (same ▸ atX'),
          second y y' atY atY'⟩
    simpa [List.cons_lt_cons_iff] using less
  · rintro ⟨i, j⟩ ⟨i', j'⟩ lower m member n member' _ p q place place'
    obtain ⟨⟨a, b⟩, pair, rfl⟩ := List.mem_map.mp member
    obtain ⟨⟨a', b'⟩, pair', rfl⟩ := List.mem_map.mp member'
    obtain ⟨left, right, _⟩ := of_operandPairs separate pair
    obtain ⟨left', right', _⟩ := of_operandPairs separate pair'
    obtain ⟨x, y, rfl, _⟩ := place.of_binary separate left right
    obtain ⟨x', y', rfl, _⟩ := place'.of_binary separate left' right'
    exact List.cons_lt_cons_iff.mpr (Or.inl lower)

theorem ordered_triples (i j l : Nat) : (f.triples i j l).Pairwise f.Before := by
  have positions := pairwise_pairsOf (positions_increase (separate.nodup .concept i))
    (pairwise_pairsOf (positions_increase (separate.nodup .role j))
      (positions_increase (separate.nodup .concept l)))
  refine List.pairwise_map.mpr (positions.imp_of_mem ?_)
  rintro ⟨a, r, b⟩ ⟨a', r', b'⟩ triple triple' increase _ p q place place'
  obtain ⟨source, pair⟩ := mem_pairsOf.mp triple
  obtain ⟨source', pair'⟩ := mem_pairsOf.mp triple'
  obtain ⟨role, target⟩ := mem_pairsOf.mp pair
  obtain ⟨role', target'⟩ := mem_pairsOf.mp pair'
  obtain ⟨x, y, z, rfl, atX, atY, atZ⟩ := place.of_distance separate source role target
  obtain ⟨x', y', z', rfl, atX', atY', atZ'⟩ := place'.of_distance separate source' role' target'
  have less : x < x' ∨ x = x' ∧ (y < y' ∨ y = y' ∧ z < z') := by
    rcases increase with first | ⟨same, second | ⟨same', third⟩⟩
    · exact Or.inl (first x x' atX atX')
    · have same : a = a' := same
      exact Or.inr ⟨position_unique (separate.nodup _ _) atX (same ▸ atX'),
        Or.inl (second y y' atY atY')⟩
    · have same : a = a' := same
      have same' : r = r' := same'
      exact Or.inr ⟨position_unique (separate.nodup _ _) atX (same ▸ atX'),
        Or.inr ⟨position_unique (separate.nodup _ _) atY (same' ▸ atY'), third z z' atZ atZ'⟩⟩
  simpa [List.cons_lt_cons_iff] using less

theorem ordered_distances : (f.distances k).Pairwise f.Before := by
  have layers : ∀ {i j l : Nat} {node : Node}, node ∈ f.triples i j l →
      ∀ p, f.Place node p → ∃ rest, p = i :: j :: rest := by
    intro i j l node member p place
    obtain ⟨a, r, b, rfl, source, role, target⟩ := of_mem_triples member
    obtain ⟨x, y, z, rfl, _⟩ := place.of_distance separate source role target
    exact ⟨_, rfl⟩
  rw [distances_eq]
  refine List.pairwise_flatMap.mpr ⟨?_, (splits_increase _).imp ?_⟩
  · intro p _
    refine List.pairwise_flatMap.mpr
      ⟨fun q _ => ordered_triples separate p.1 q.1 q.2, (splits_increase _).imp ?_⟩
    intro q q' lower m member n member' _ first second place place'
    obtain ⟨_, rfl⟩ := layers member first place
    obtain ⟨_, rfl⟩ := layers member' second place'
    exact List.cons_lt_cons_iff.mpr (Or.inr ⟨rfl, List.cons_lt_cons_iff.mpr (Or.inl lower)⟩)
  · intro p p' lower m member n member' _ first second place place'
    obtain ⟨_, _, member⟩ := List.mem_flatMap.mp member
    obtain ⟨_, _, member'⟩ := List.mem_flatMap.mp member'
    obtain ⟨_, rfl⟩ := layers member first place
    obtain ⟨_, rfl⟩ := layers member' second place'
    exact List.cons_lt_cons_iff.mpr (Or.inl lower)

theorem ordered_composites (rule : Rule) : (f.composites rule k).Pairwise f.Before := by
  have of_unary : ∀ {op : UnaryOp} {n : Node}, n ∈ f.unary k op → ∃ a, n = .unary op a := by
    intro op n member
    obtain ⟨a, _, rfl⟩ := List.mem_map.mp member
    exact ⟨a, rfl⟩
  have of_binary : ∀ {op : BinaryOp} {n : Node}, n ∈ f.binary k op → ∃ a b, n = .binary op a b := by
    intro op n member
    obtain ⟨_, _, member⟩ := List.mem_flatMap.mp member
    obtain ⟨⟨a, b⟩, _, rfl⟩ := List.mem_map.mp member
    exact ⟨a, b, rfl⟩
  have unaries : (UnaryOp.plain.filter fun op => op.rule = rule).Pairwise
      fun op op' => op.operand ≠ op'.operand := by cases rule <;> decide
  have binaries : (BinaryOp.all.filter fun op => op.rule = rule).Pairwise
      fun op op' => op.left ≠ op'.left := by cases rule <;> decide
  unfold composites
  split
  · exact ordered_projections separate
  · exact ordered_distances separate
  · -- Different operators of a rule have operands of different kinds.
    refine List.pairwise_append.mpr ⟨?_, ?_, ?_⟩
    · refine List.pairwise_flatMap.mpr ⟨fun op _ => ordered_unary separate op, unaries.imp ?_⟩
      intro op op' differ m member n member' kinds
      obtain ⟨a, rfl⟩ := of_unary member
      obtain ⟨b, rfl⟩ := of_unary member'
      exact absurd (List.cons.inj kinds).1 differ
    · refine List.pairwise_flatMap.mpr ⟨fun op _ => ordered_binary separate op, binaries.imp ?_⟩
      intro op op' differ m member n member' kinds
      obtain ⟨a, b, rfl⟩ := of_binary member
      obtain ⟨c, d, rfl⟩ := of_binary member'
      exact absurd (List.cons.inj kinds).1 differ
    · intro m member n member' kinds
      obtain ⟨_, _, member⟩ := List.mem_flatMap.mp member
      obtain ⟨_, _, member'⟩ := List.mem_flatMap.mp member'
      obtain ⟨a, rfl⟩ := of_unary member
      obtain ⟨b, c, rfl⟩ := of_binary member'
      simp [Node.operands] at kinds

/-! ## Pairs and sums -/

/-- The pairs whose order matters are those whose layers add up. -/
theorem paired_iff {op : BinaryOp} (ordered : op.combination ≠ .unordered) {total a b : Nat} :
    (∃ i j, (i, j) ∈ splits total ∧ (a, b) ∈ f.operandPairs op i j)
      ↔ (op.combination = .different → a ≠ b) ∧ f.Sums op total a b := by
  have plain : op.rule.isCommutative = false := by
    rw [← Bool.not_eq_true, BinaryOp.isCommutative_iff]
    exact ordered
  have needs : op.needsDistinct = true ↔ op.combination = .different := by
    revert ordered
    cases op <;> decide
  constructor
  · rintro ⟨i, j, split, pair⟩
    obtain ⟨left, right, distinct⟩ := of_operandPairs separate pair
    exact ⟨fun different => distinct (needs.mpr different), i, j, (mem_splits.mp split).2.2, left,
      right⟩
  · rintro ⟨distinct, i, j, sum, left, right⟩
    exact ⟨i, j, mem_splits_of_layers left right sum,
      operandPairs_of_ordered plain left right fun needed => distinct (needs.mp needed)⟩

/-- Of the pairs whose order does not matter, one of both orders is there. -/
theorem paired_or_iff {op : BinaryOp} (unordered : op.combination = .unordered) {total a b : Nat} :
    (∃ i j, (i, j) ∈ splits total ∧ ((a, b) ∈ f.operandPairs op i j ∨ (b, a) ∈ f.operandPairs op i j))
      ↔ a ≠ b ∧ f.Sums op total a b := by
  have commutative := BinaryOp.isCommutative_iff.mpr unordered
  have same := BinaryOp.left_eq_right commutative
  constructor
  · rintro ⟨i, j, split, pair⟩
    have sum := (mem_splits.mp split).2.2
    rcases pair with pair | pair
    · obtain ⟨left, right, _⟩ := of_operandPairs separate pair
      refine ⟨?_, i, j, sum, left, right⟩
      rintro rfl
      exact operandPairs_asymm separate commutative pair pair
    · obtain ⟨left, right, _⟩ := of_operandPairs separate pair
      refine ⟨?_, j, i, by omega, same ▸ right, same ▸ left⟩
      rintro rfl
      exact operandPairs_asymm separate commutative pair pair
  · rintro ⟨differ, i, j, sum, left, right⟩
    rcases operandPairs_of_commutative commutative left right differ with pair | pair
    · exact ⟨i, j, mem_splits_of_layers left right sum, Or.inl pair⟩
    · have swapped := mem_splits_of_layers (same ▸ right) (same ▸ left) (Nat.add_comm j i ▸ sum)
      exact ⟨j, i, swapped, Or.inr pair⟩

/-! ## What the list is -/

theorem candidates_placed (positive : 0 < k) {node : Node}
    (member : node ∈ f.candidates v rule k) (composite : ∀ l, node ≠ .leaf l) :
    ∃ p, f.Place node p := by
  have operands := (candidate_of_mem separate positive member).operands
  have position : ∀ h ∈ node.operands, ∃ i x : Nat, (f.layer h.kind i)[x]? = some h.index := by
    intro h operand
    obtain ⟨i, _, kept⟩ := operands h operand
    obtain ⟨x, found⟩ := List.mem_iff_getElem?.mp kept
    exact ⟨i, x, found⟩
  cases node with
  | leaf l => exact absurd rfl (composite l)
  | unary op a =>
    obtain ⟨i, x, operand⟩ := position _ (Node.operand_mem op a)
    exact ⟨_, .unary operand⟩
  | binary op a b =>
    obtain ⟨i, x, left⟩ := position _ (Node.left_mem op a b)
    obtain ⟨j, y, right⟩ := position _ (Node.right_mem op a b)
    exact ⟨_, .binary left right⟩
  | distance a r b =>
    obtain ⟨i, x, source⟩ := position _ (Node.source_mem a r b)
    obtain ⟨j, y, role⟩ := position _ (Node.role_mem a r b)
    obtain ⟨l, z, target⟩ := position _ (Node.target_mem a r b)
    exact ⟨_, .distance source role target⟩

theorem candidates_lists (composite : 1 < k) : f.Lists rule (k - 1) (f.candidates v rule k) := by
  have leaf : ∀ l, .leaf l ∉ f.candidates v rule k := fun l member =>
    Nat.ne_of_gt composite (leaf_mem_candidates.mp member).1
  exact {
    once := nodup_candidates separate v rule k
    leaf := leaf
    unary := fun op a => unary_mem_candidates
    unordered := by
      intro op unordered a b
      have commutative := BinaryOp.isCommutative_iff.mpr unordered
      refine ⟨?_, ?_⟩
      · rw [binary_mem_candidates, binary_mem_candidates, ← and_or_left,
          ← paired_or_iff separate unordered]
        simp only [and_or_left, exists_or]
      · rintro ⟨forth, back⟩
        obtain ⟨_, _, _, _, forth⟩ := binary_mem_candidates.mp forth
        obtain ⟨_, _, _, _, back⟩ := binary_mem_candidates.mp back
        exact operandPairs_asymm separate commutative forth back
    different := by
      intro op different a b
      have ordered : op.combination ≠ .unordered := by simp [different]
      rw [binary_mem_candidates, paired_iff separate ordered]
      simp [different]
    any := by
      intro op any a b
      have ordered : op.combination ≠ .unordered := by simp [any]
      rw [binary_mem_candidates, paired_iff separate ordered]
      simp [any]
    distance := by
      intro a r b
      rw [distance_mem_candidates]
      have sum : ∀ i j l, i + (j + l) + 1 = k ↔ i + j + l = k - 1 := by omega
      simp only [sum]
    placed := fun n member => candidates_placed separate (by omega) member fun l shape =>
      leaf l (shape ▸ member)
    ordered := by
      have shape : f.candidates v rule k = f.composites rule k := if_neg (by omega)
      exact shape ▸ ordered_composites separate rule }

end

theorem candidates_of_unordered {op : BinaryOp} (unordered : op.combination = .unordered)
    (composite : 1 < k) : f.candidates v op.rule k = f.binary k op := by
  rw [candidates, if_neg (by omega)]
  cases op <;> simp only [BinaryOp.combination, reduceCtorEq] at unordered <;>
    exact List.append_nil _

/-- When layers below `k` are closed and hold nothing twice, the candidates of a rule with
complexity `k` are exactly its nodes over operands whose layers add up, each once and in the
order of layers and positions; no layer that is not closed is looked at, and no subtraction or
position goes beyond what there is. -/
theorem candidates_exact (f : Frontier) (separate : f.Separate) (v : Vocabulary) (rule : Rule)
    {k : Nat} (composite : 1 < k) (closed : k ≤ f.layers.size + 1) :
    f.Lists rule (k - 1) (f.candidates v rule k) ∧
      Strict.candidates f v rule k = .ok (f.candidates v rule k) ∧
      ∀ op : BinaryOp, op.rule = rule → op.combination = .unordered →
        Strict.symmetric f k op = .ok (f.candidates v rule k) := by
  have positive : 0 < k := by omega
  refine ⟨candidates_lists separate composite, Strict.candidates_ok positive closed v rule, ?_⟩
  rintro op rfl unordered
  rw [candidates_of_unordered unordered composite]
  exact Strict.symmetric_ok positive (BinaryOp.isCommutative_iff.mpr unordered)

/-- Two expressions in each of the first two layers and one in the third, not in the order of
their indices. -/
def closedLayers : Frontier := ⟨#[⟨[1, 2], [1]⟩, ⟨[4, 3], [3, 2]⟩, ⟨[5], []⟩, ⟨[], [4]⟩]⟩

theorem closedLayers_candidates :
    closedLayers.Lists .conceptAnd 4 [.binary .conceptAnd 1 5, .binary .conceptAnd 2 5,
        .binary .conceptAnd 4 3] ∧
      Strict.symmetric closedLayers 5 .conceptAnd = .ok [.binary .conceptAnd 1 5,
        .binary .conceptAnd 2 5, .binary .conceptAnd 4 3] := by
  have separate : closedLayers.Separate := separate_of_closed
    (by intro kind; cases kind <;> decide) (by intro kind; cases kind <;> decide)
  obtain ⟨lists, _, symmetric⟩ := candidates_exact closedLayers separate .empty .conceptAnd
    (k := 5) (by decide) (by decide)
  exact ⟨lists, symmetric .conceptAnd rfl rfl⟩

end Frontier
end PlanFeatures
