import Mathlib.Data.List.Basic
import PlanFeatures.Generation.Frontier
import PlanFeatures.Proofs.Generation.Expressible

/-!
# What the candidates are

Two questions are answered about the candidates of a rule with complexity `k`.  What
is true of each of them: its rule, its operands from earlier layers, its number of
rule applications, and that operands which have to differ do.  And which nodes are
among them: those over kept operands, except that operands whose order does not
matter are paired in one order only, and that some pairs of equal operands are left
out.
-/

namespace PlanFeatures

/-! ## Pairs of elements -/

theorem mem_laterPairs {α : Type} {as : List α} {a b : α} :
    (a, b) ∈ laterPairs as ↔ [a, b].Sublist as := by
  induction as with
  | nil => simp [laterPairs]
  | cons c rest ih =>
    rw [laterPairs, List.mem_append, ih, List.sublist_cons_iff]
    simp only [List.mem_map, Prod.mk.injEq, List.cons.injEq]
    constructor
    · rintro (⟨b', member, rfl, rfl⟩ | sub)
      · exact Or.inr ⟨[b'], ⟨rfl, rfl⟩, List.singleton_sublist.mpr member⟩
      · exact Or.inl sub
    · rintro (sub | ⟨_, ⟨rfl, rfl⟩, sub⟩)
      · exact Or.inr sub
      · exact Or.inl ⟨b, List.singleton_sublist.mp sub, rfl, rfl⟩

theorem mem_of_laterPairs {α : Type} {as : List α} {a b : α} (member : (a, b) ∈ laterPairs as) :
    a ∈ as ∧ b ∈ as := by
  have sub := (mem_laterPairs.mp member).subset
  exact ⟨sub List.mem_cons_self, sub (List.mem_cons_of_mem _ List.mem_cons_self)⟩

theorem rel_of_laterPairs {α : Type} {R : α → α → Prop} {as : List α} (pairwise : as.Pairwise R)
    {a b : α} (member : (a, b) ∈ laterPairs as) : R a b :=
  List.pairwise_iff_forall_sublist.mp pairwise (mem_laterPairs.mp member)

/-- Two different elements are paired, in one of both orders. -/
theorem laterPairs_of_ne {α : Type} {as : List α} {a b : α} (memA : a ∈ as) (memB : b ∈ as)
    (differ : a ≠ b) : (a, b) ∈ laterPairs as ∨ (b, a) ∈ laterPairs as := by
  induction as with
  | nil => cases memA
  | cons c rest ih =>
    simp only [laterPairs, List.mem_append, List.mem_map, Prod.mk.injEq]
    rcases List.mem_cons.mp memA with rfl | laterA
    · rcases List.mem_cons.mp memB with rfl | laterB
      · exact absurd rfl differ
      · exact Or.inl (Or.inl ⟨b, laterB, rfl, rfl⟩)
    · rcases List.mem_cons.mp memB with rfl | laterB
      · exact Or.inr (Or.inl ⟨a, laterA, rfl, rfl⟩)
      · exact (ih laterA laterB).imp Or.inr Or.inr

theorem laterPairs_range {n i j : Nat} : (i, j) ∈ laterPairs (List.range n) ↔ i < j ∧ j < n := by
  constructor
  · intro member
    exact ⟨rel_of_laterPairs List.pairwise_lt_range member,
      List.mem_range.mp (mem_of_laterPairs member).2⟩
  · rintro ⟨less, bound⟩
    have first : i ∈ List.range n := List.mem_range.mpr (by omega)
    rcases laterPairs_of_ne first (List.mem_range.mpr bound) (Nat.ne_of_lt less) with forth | back
    · exact forth
    · have greater := rel_of_laterPairs List.pairwise_lt_range back
      omega

/-! ## Leaves -/

theorem Vocabulary.mem_predicateList {v : Vocabulary} {p : PredicateId} {predicate : Predicate} :
    (p, predicate) ∈ v.predicateList ↔ v.predicate? p = some predicate := by
  simp only [predicateList, predicate?, List.mem_map, Prod.mk.injEq, Prod.exists]
  constructor
  · rintro ⟨_, i, member, rfl, rfl⟩
    simpa using List.mk_mem_zipIdx_iff_getElem?.mp member
  · intro found
    exact ⟨predicate, p.index, List.mk_mem_zipIdx_iff_getElem?.mpr (by simpa using found), rfl, rfl⟩

theorem Vocabulary.mem_constantList {v : Vocabulary} {k : ConstantId} {name : String} :
    (k, name) ∈ v.constantList ↔ v.constant? k = some name := by
  simp only [constantList, constant?, List.mem_map, Prod.mk.injEq, Prod.exists]
  constructor
  · rintro ⟨_, i, member, rfl, rfl⟩
    simpa using List.mk_mem_zipIdx_iff_getElem?.mp member
  · intro found
    exact ⟨name, k.index, List.mk_mem_zipIdx_iff_getElem?.mpr (by simpa using found), rfl, rfl⟩

/-- The leaves of a rule are those over the vocabulary whose positions a word counts, roles with
increasing positions. -/
theorem Vocabulary.mem_leaves {v : Vocabulary} {rule : Rule} {l : Leaf} :
    l ∈ v.leaves rule ↔ l.rule = rule ∧ l.Declared v ∧ l.Ascending ∧ l.Counted v := by
  cases rule <;> cases l <;>
    simp only [leaves, List.mem_flatMap, List.mem_map, List.mem_filterMap, List.mem_singleton,
      List.not_mem_nil, Prod.exists, mem_predicateList, mem_constantList, List.mem_range,
      laterPairs_range, Leaf.rule, Leaf.Declared, Leaf.Ascending, Leaf.Counted, reduceCtorEq,
      false_and, and_false, exists_false, true_and, and_true]
  case conceptPrimitive.conceptPrimitive p i =>
    constructor
    · rintro ⟨q, predicate, known, j, inside, same⟩
      cases same
      exact ⟨⟨predicate, known, Nat.lt_of_lt_of_le inside predicate.positions_le⟩,
        predicate, known, inside⟩
    · rintro ⟨_, predicate, known, inside⟩
      exact ⟨p, predicate, known, i, inside, rfl⟩
  case conceptOneOf.conceptOneOf k =>
    constructor
    · rintro ⟨q, name, known, same⟩
      cases same
      exact ⟨name, known⟩
    · rintro ⟨name, known⟩
      exact ⟨k, name, known, rfl⟩
  case rolePrimitive.rolePrimitive p i j =>
    constructor
    · rintro ⟨q, predicate, known, first, second, ⟨less, inside⟩, same⟩
      cases same
      have bound := predicate.positions_le
      exact ⟨⟨predicate, known, by omega, by omega⟩, less, predicate, known, inside⟩
    · rintro ⟨_, less, predicate, known, inside⟩
      exact ⟨p, predicate, known, i, j, ⟨less, inside⟩, rfl⟩
  case booleanNullary.booleanNullary p =>
    constructor
    · rintro ⟨q, predicate, known, made⟩
      split at made
      next nullary => cases made; exact ⟨predicate, known, nullary⟩
      next => cases made
    · rintro ⟨predicate, known, nullary⟩
      exact ⟨p, predicate, known, by rw [if_pos nullary]⟩
  -- The other leaves are no booleans.
  all_goals grind

namespace Frontier
variable {f : Frontier} {v : Vocabulary} {rule : Rule} {k : Nat} {node : Node}

theorem pos_of_mem_layer {kind : Kind} {i a : Nat} (member : a ∈ f.layer kind i) : 0 < i := by
  cases i with
  | zero => cases member
  | succ i => exact Nat.succ_pos i

/-! ## Candidates and their operands -/

/-- What is true of a candidate of a rule with complexity `k`. -/
structure Candidate (f : Frontier) (v : Vocabulary) (rule : Rule) (k : Nat) (node : Node) :
    Prop where
  rule : node.rule = rule
  declared : node.Declared v
  operands : ∀ h ∈ node.operands, ∃ i, i < k ∧ h.index ∈ f.layer h.kind i
  /-- The operands' layers add up to `k` with the rule itself. -/
  applications : ∀ count : Handle → Nat,
    (∀ h ∈ node.operands, ∀ i, h.index ∈ f.layer h.kind i → count h = i) →
      Store.applications count node = k
  ascending : ∀ l, node = .leaf l → l.Ascending
  counted : ∀ l, node = .leaf l → l.Counted v
  distinct : ∀ op a b, node = .binary op a b → op.needsDistinct = true → a ≠ b

theorem candidate_leaf {l : Leaf} (member : l ∈ v.leaves rule) :
    f.Candidate v rule 1 (.leaf l) := by
  obtain ⟨same, declared, ascending, counted⟩ := Vocabulary.mem_leaves.mp member
  exact {
    rule := same
    declared := declared
    operands := fun h member => by cases member
    applications := fun count _ => rfl
    ascending := fun m same => by cases same; exact ascending
    counted := fun m same => by cases same; exact counted
    distinct := fun op a b shape => by cases shape }

theorem candidate_unary {op : UnaryOp} {i a : Nat} (declared : op.Declared)
    (member : a ∈ f.layer op.operand i) : f.Candidate v op.rule (i + 1) (.unary op a) where
  rule := rfl
  declared := declared
  operands := by
    intro h operand
    rw [List.mem_singleton.mp operand]
    exact ⟨i, Nat.lt_succ_self i, member⟩
  applications := by
    intro count counts
    have first := counts _ (Node.operand_mem op a) i member
    simp only [Store.applications, Node.operands, List.foldr, first]
  ascending l shape := by cases shape
  counted l shape := by cases shape
  distinct op' a' b' shape := by cases shape

theorem candidate_binary {op : BinaryOp} {i j a b : Nat} (left : a ∈ f.layer op.left i)
    (right : b ∈ f.layer op.right j) (distinct : op.needsDistinct = true → a ≠ b) :
    f.Candidate v op.rule (i + j + 1) (.binary op a b) where
  rule := rfl
  declared := trivial
  operands := by
    intro h operand
    simp only [Node.operands, List.mem_cons, List.not_mem_nil, or_false] at operand
    rcases operand with rfl | rfl
    · exact ⟨i, by omega, left⟩
    · exact ⟨j, by omega, right⟩
  applications := by
    intro count counts
    have first := counts _ (Node.left_mem op a b) i left
    have second := counts _ (Node.right_mem op a b) j right
    simp only [Store.applications, Node.operands, List.foldr, first, second]
    omega
  ascending l shape := by cases shape
  counted l shape := by cases shape
  distinct op' a' b' shape needed := by cases shape; exact distinct needed

theorem candidate_distance {i j l a r b : Nat} (source : a ∈ f.layer .concept i)
    (role : r ∈ f.layer .role j) (target : b ∈ f.layer .concept l) :
    f.Candidate v .numericalDistance (i + (j + l) + 1) (.distance a r b) where
  rule := rfl
  declared := trivial
  operands := by
    intro h operand
    simp only [Node.operands, List.mem_cons, List.not_mem_nil, or_false] at operand
    rcases operand with rfl | rfl | rfl
    · exact ⟨i, by omega, source⟩
    · exact ⟨j, by omega, role⟩
    · exact ⟨l, by omega, target⟩
  applications := by
    intro count counts
    have first := counts _ (Node.source_mem a r b) i source
    have second := counts _ (Node.role_mem a r b) j role
    have third := counts _ (Node.target_mem a r b) l target
    simp only [Store.applications, Node.operands, List.foldr, first, second, third]
    omega
  ascending m shape := by cases shape
  counted m shape := by cases shape
  distinct op' a' b' shape := by cases shape

/-! ## Pairs of operands -/

/-- No expression is listed twice, in one layer or in two. -/
structure Separate (f : Frontier) : Prop where
  nodup : ∀ kind i, (f.layer kind i).Nodup
  apart : ∀ {kind i j a}, a ∈ f.layer kind i → a ∈ f.layer kind j → i = j

/-- The two operands of a pair are in their layers; where they have to differ they
do. -/
theorem of_operandPairs {op : BinaryOp} {i j a b : Nat} (separate : f.Separate)
    (pair : (a, b) ∈ f.operandPairs op i j) :
    a ∈ f.layer op.left i ∧ b ∈ f.layer op.right j ∧ (op.needsDistinct = true → a ≠ b) := by
  unfold operandPairs at pair
  split at pair
  next commutative =>
    have same := BinaryOp.left_eq_right commutative
    split at pair
    next less =>
      -- Operands from two layers differ, since no expression is in both.
      obtain ⟨left, right⟩ := mem_pairsOf.mp pair
      refine ⟨left, right, fun _ equal => ?_⟩
      have layers := separate.apart left (same ▸ equal ▸ right)
      omega
    next =>
      split at pair
      next equal =>
        obtain ⟨left, right⟩ := mem_of_laterPairs pair
        exact ⟨left, same ▸ equal ▸ right, fun _ => rel_of_laterPairs (separate.nodup _ _) pair⟩
      next => cases pair
  next ordered =>
    split at pair
    next =>
      obtain ⟨member, differ⟩ := List.mem_filter.mp pair
      obtain ⟨left, right⟩ := mem_pairsOf.mp member
      exact ⟨left, right, fun _ => of_decide_eq_true differ⟩
    next mixed =>
      -- Of the operators whose order matters, those that are tried on equal operands are left.
      obtain ⟨left, right⟩ := mem_pairsOf.mp pair
      refine ⟨left, right, fun needed => absurd needed ?_⟩
      revert ordered mixed
      cases op <;> decide

/-- Pairs of operands from two layers are formed, unless their order does not
matter or the operator is not tried on equal ones. -/
theorem operandPairs_of_ordered {op : BinaryOp} {i j a b : Nat}
    (ordered : op.rule.isCommutative = false) (left : a ∈ f.layer op.left i)
    (right : b ∈ f.layer op.right j) (distinct : op.needsDistinct = true → a ≠ b) :
    (a, b) ∈ f.operandPairs op i j := by
  simp only [operandPairs, ordered, Bool.false_eq_true, if_false]
  split
  next trivial =>
    refine List.mem_filter.mpr ⟨mem_pairsOf.mpr ⟨left, right⟩, decide_eq_true (distinct ?_)⟩
    revert trivial
    cases op <;> decide
  next => exact mem_pairsOf.mpr ⟨left, right⟩

theorem operandPairs_of_commutative {op : BinaryOp} {i j a b : Nat}
    (commutative : op.rule.isCommutative = true) (left : a ∈ f.layer op.left i)
    (right : b ∈ f.layer op.right j) (differ : a ≠ b) :
    (a, b) ∈ f.operandPairs op i j ∨ (b, a) ∈ f.operandPairs op j i := by
  have same := BinaryOp.left_eq_right commutative
  simp only [operandPairs, commutative, if_true, ← same]
  rw [← same] at right
  -- The operand from the lower layer comes first; within a layer, the one that is listed first.
  rcases Nat.lt_trichotomy i j with less | equal | greater
  · exact Or.inl (by rw [if_pos less]; exact mem_pairsOf.mpr ⟨left, right⟩)
  · subst equal
    simp only [Nat.lt_irrefl, if_false, if_true]
    exact laterPairs_of_ne left right differ
  · exact Or.inr (by rw [if_pos greater]; exact mem_pairsOf.mpr ⟨right, left⟩)

/-! ## The candidates of a rule, by their shape -/

theorem leaf_mem_candidates {l : Leaf} :
    .leaf l ∈ f.candidates v rule k ↔ k = 1 ∧ l ∈ v.leaves rule := by
  unfold candidates
  split
  next first => simp [first]
  next composite =>
    refine iff_of_false (fun member => ?_) fun both => composite both.1
    unfold composites at member
    split at member <;>
      simp [projections, distances, unary, binary] at member

theorem unary_mem_candidates {op : UnaryOp} {a : Nat} :
    .unary op a ∈ f.candidates v rule k
      ↔ op.rule = rule ∧ op.Declared ∧ a ∈ f.layer op.operand (k - 1) := by
  unfold candidates
  split
  next first => simp [first, layer]
  next =>
    -- Three shapes: projections, distances, and the operators on one or two operands.
    unfold composites
    split
    next =>
      cases op <;> simp [projections, UnaryOp.rule, UnaryOp.Declared, UnaryOp.operand]
      case conceptProjection position =>
        constructor
        · rintro ⟨r, kept, ⟨rfl, rfl⟩ | ⟨rfl, rfl⟩⟩ <;> exact ⟨by omega, kept⟩
        · rintro ⟨bound, kept⟩
          exact ⟨a, kept, by omega⟩
    next => cases op <;> simp [distances, UnaryOp.rule]
    next projection distance =>
      simp only [List.mem_append, List.mem_flatMap, List.mem_filter, decide_eq_true_eq]
      constructor
      · rintro (⟨op, ⟨plain, same⟩, member⟩ | ⟨op, _, member⟩)
        · obtain ⟨a, kept, shape⟩ := List.mem_map.mp member
          cases shape
          exact ⟨same, UnaryOp.declared_of_mem_plain plain, kept⟩
        · simp [binary] at member
      · rintro ⟨rfl, _, kept⟩
        exact Or.inl ⟨op, ⟨UnaryOp.mem_plain projection, rfl⟩, List.mem_map_of_mem kept⟩

theorem binary_mem_candidates {op : BinaryOp} {a b : Nat} :
    .binary op a b ∈ f.candidates v rule k
      ↔ op.rule = rule ∧ ∃ i j, (i, j) ∈ splits (k - 1) ∧ (a, b) ∈ f.operandPairs op i j := by
  unfold candidates
  split
  next first => simp [first, mem_splits]
  next =>
    unfold composites
    split
    next => cases op <;> simp [projections, BinaryOp.rule]
    next => cases op <;> simp [distances, BinaryOp.rule]
    next =>
      simp only [List.mem_append, List.mem_flatMap, List.mem_filter, decide_eq_true_eq]
      constructor
      · rintro (⟨op, _, member⟩ | ⟨op, ⟨_, same⟩, member⟩)
        · simp [unary] at member
        · obtain ⟨⟨i, j⟩, split, member⟩ := List.mem_flatMap.mp member
          obtain ⟨_, pair, shape⟩ := List.mem_map.mp member
          cases shape
          exact ⟨same, i, j, split, pair⟩
      · rintro ⟨rfl, i, j, split, pair⟩
        refine Or.inr ⟨op, ⟨by cases op <;> decide, rfl⟩, List.mem_flatMap.mpr ⟨(i, j), split, ?_⟩⟩
        exact List.mem_map.mpr ⟨(a, b), pair, rfl⟩

theorem distance_mem_candidates {a r b : Nat} :
    .distance a r b ∈ f.candidates v rule k
      ↔ rule = .numericalDistance ∧ ∃ i j l, i + (j + l) + 1 = k ∧ a ∈ f.layer .concept i ∧
        r ∈ f.layer .role j ∧ b ∈ f.layer .concept l := by
  unfold candidates
  split
  next first =>
    refine iff_of_false (by simp) ?_
    rintro ⟨_, i, j, l, total, source, _, _⟩
    have := pos_of_mem_layer source
    omega
  next =>
    unfold composites
    split
    next => simp [projections]
    next =>
      simp only [distances, List.mem_flatMap, List.mem_map, Prod.exists, mem_pairsOf, mem_splits,
        Node.distance.injEq, true_and]
      constructor
      · rintro ⟨i, rest, ⟨_, _, sum⟩, j, l, ⟨_, _, sum'⟩, source, kept, role, target, ⟨keptRole,
          keptTarget⟩, rfl, rfl, rfl⟩
        exact ⟨i, j, l, by omega, kept, keptRole, keptTarget⟩
      · rintro ⟨i, j, l, total, source, role, target⟩
        have first := pos_of_mem_layer source
        have second := pos_of_mem_layer role
        have third := pos_of_mem_layer target
        exact ⟨i, j + l, by omega, j, l, by omega, a, source, r, b, ⟨role, target⟩, rfl, rfl, rfl⟩
    next projection distance =>
      refine iff_of_false ?_ fun shape => distance shape.1
      simp [unary, binary]

/-- A candidate has its rule, and operands from layers that add up. -/
theorem candidate_of_mem (separate : f.Separate) (positive : 0 < k)
    (member : node ∈ f.candidates v rule k) : f.Candidate v rule k node := by
  have before : k - 1 + 1 = k := by omega
  cases node with
  | leaf l =>
    obtain ⟨rfl, leaf⟩ := leaf_mem_candidates.mp member
    exact candidate_leaf leaf
  | unary op a =>
    obtain ⟨rfl, declared, kept⟩ := unary_mem_candidates.mp member
    exact before ▸ candidate_unary declared kept
  | binary op a b =>
    obtain ⟨rfl, i, j, split, pair⟩ := binary_mem_candidates.mp member
    obtain ⟨left, right, distinct⟩ := of_operandPairs separate pair
    have sum := (mem_splits.mp split).2.2
    have total : i + j + 1 = k := by omega
    exact total ▸ candidate_binary left right distinct
  | distance a r b =>
    obtain ⟨rfl, i, j, l, rfl, source, role, target⟩ := distance_mem_candidates.mp member
    exact candidate_distance source role target

/-! ## Closed layers -/

/-- Candidates come from lower layers only. -/
theorem candidates_congr {f g : Frontier}
    (same : ∀ kind i, i < k → f.layer kind i = g.layer kind i) :
    f.candidates v rule k = g.candidates v rule k := by
  have below : ∀ kind, f.layer kind (k - 1) = g.layer kind (k - 1) := by
    cases k with
    | zero => exact fun kind => rfl
    | succ k => exact fun kind => same kind k (Nat.lt_succ_self k)
  have unary : f.unary k = g.unary k := by
    funext op
    rw [Frontier.unary, Frontier.unary, below]
  have binary : f.binary k = g.binary k := by
    funext op
    refine List.flatMap_congr ?_
    rintro ⟨i, j⟩ split
    obtain ⟨_, _, sum⟩ := mem_splits.mp split
    simp only [operandPairs, same _ i (by omega), same _ j (by omega)]
  have distances : f.distances k = g.distances k := by
    refine List.flatMap_congr ?_
    rintro ⟨i, rest⟩ split
    obtain ⟨_, _, sum⟩ := mem_splits.mp split
    refine List.flatMap_congr ?_
    rintro ⟨j, l⟩ split'
    obtain ⟨_, _, sum'⟩ := mem_splits.mp split'
    simp only [same _ i (by omega), same _ j (by omega), same _ l (by omega)]
  simp only [candidates, composites, projections, below, unary, binary, distances]

theorem layer_of_size_lt {kind : Kind} {i : Nat} (beyond : f.layers.size < i) :
    f.layer kind i = [] := by
  cases i with
  | zero => rfl
  | succ i =>
    have none : f.layers[i]? = none := Array.getElem?_eq_none (by omega)
    simp only [layer, none, Option.getD_none]
    cases kind <;> rfl

theorem le_size_of_mem_layer {kind : Kind} {i a : Nat} (member : a ∈ f.layer kind i) :
    i ≤ f.layers.size := by
  by_contra beyond
  rw [layer_of_size_lt (by omega)] at member
  cases member

/-- That no expression is listed twice is a matter of the closed layers. -/
theorem separate_of_closed (nodup : ∀ kind, ∀ i ≤ f.layers.size, (f.layer kind i).Nodup)
    (apart : ∀ kind, ∀ i ≤ f.layers.size, ∀ j ≤ f.layers.size, ∀ a ∈ f.layer kind i,
      a ∈ f.layer kind j → i = j) : f.Separate where
  nodup kind i := by
    by_cases closed : i ≤ f.layers.size
    · exact nodup kind i closed
    · rw [layer_of_size_lt (by omega)]
      exact List.nodup_nil
  apart {kind i j a} first second :=
    apart kind i (le_size_of_mem_layer first) j (le_size_of_mem_layer second) a first second

theorem layer_close {l : Layer} {kind : Kind} {i : Nat} (closed : i ≤ f.layers.size) :
    (f.close l).layer kind i = f.layer kind i := by
  cases i with
  | zero => rfl
  | succ i => simp only [layer, close, Array.getElem?_push, Nat.ne_of_lt closed, if_false]

theorem layer_close_last {l : Layer} {kind : Kind} :
    (f.close l).layer kind (f.layers.size + 1) = l.ofKind kind := by
  simp [layer, close]

end Frontier
end PlanFeatures
