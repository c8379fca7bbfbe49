import Mathlib.Data.List.Nodup
import PlanFeatures.Generation.Config
import PlanFeatures.Proofs.Generation.Candidates

/-!
# The agenda of a run

The agenda lists what a run goes through: layer by layer and rule by rule, the
candidates within the limits.  If the layers list no expression twice, neither does the
agenda; and it does not list both orders of two operands whose order does not matter.
A rule has its own nodes, a layer those with its number of rule applications, and within
a rule and a layer the operands tell the nodes apart.
-/

namespace PlanFeatures

/-! ## Lists of pairs -/

theorem nodup_flatMap_of_key {α β : Type} {as : List α} {f : α → List β} (nodup : as.Nodup)
    (parts : ∀ a ∈ as, (f a).Nodup)
    (key : ∀ a ∈ as, ∀ b ∈ as, ∀ x, x ∈ f a → x ∈ f b → a = b) : (as.flatMap f).Nodup := by
  refine List.nodup_flatMap.mpr ⟨parts, nodup.imp_of_mem ?_⟩
  intro a b memA memB differ x inA inB
  exact differ (key a memA b memB x inA inB)

theorem nodup_pairsOf {α β : Type} {as : List α} {bs : List β} (first : as.Nodup)
    (second : bs.Nodup) : (pairsOf as bs).Nodup := by
  refine nodup_flatMap_of_key first (fun a _ => second.map fun b c same => (Prod.mk.inj same).2) ?_
  rintro a _ b _ x inA inB
  obtain ⟨c, _, rfl⟩ := List.mem_map.mp inA
  obtain ⟨d, _, same⟩ := List.mem_map.mp inB
  exact (Prod.mk.inj same).1.symm

theorem nodup_splits (total : Nat) : (splits total).Nodup :=
  List.Nodup.map (fun _ _ same => (Prod.mk.inj same).1) List.nodup_range'

theorem nodup_laterPairs {α : Type} {as : List α} (nodup : as.Nodup) : (laterPairs as).Nodup := by
  induction as with
  | nil => exact List.nodup_nil
  | cons a rest ih =>
    obtain ⟨fresh, nodup⟩ := List.nodup_cons.mp nodup
    have here : (rest.map fun b => (a, b)).Nodup :=
      nodup.map fun b c same => (Prod.mk.inj same).2
    refine List.nodup_append.mpr ⟨here, ih nodup, ?_⟩
    rintro x first y second rfl
    obtain ⟨b, _, rfl⟩ := List.mem_map.mp first
    exact fresh (mem_of_laterPairs second).1

/-- Of two different elements only one comes later. -/
theorem laterPairs_asymm {α : Type} {as : List α} (nodup : as.Nodup) {a b : α}
    (forth : (a, b) ∈ laterPairs as) : (b, a) ∉ laterPairs as := by
  induction as with
  | nil => cases forth
  | cons c rest ih =>
    obtain ⟨fresh, nodup⟩ := List.nodup_cons.mp nodup
    have split : ∀ {x y : α}, (x, y) ∈ laterPairs (c :: rest) →
        x = c ∧ y ∈ rest ∨ (x, y) ∈ laterPairs rest := by
      intro x y member
      rcases List.mem_append.mp member with first | later
      · obtain ⟨_, inside, same⟩ := List.mem_map.mp first
        cases same
        exact Or.inl ⟨rfl, inside⟩
      · exact Or.inr later
    intro back
    rcases split forth with ⟨rfl, inside⟩ | later
    · rcases split back with ⟨rfl, _⟩ | other
      · exact fresh inside
      · exact fresh (mem_of_laterPairs other).2
    · rcases split back with ⟨rfl, _⟩ | other
      · exact fresh (mem_of_laterPairs later).2
      · exact ih nodup later other

/-! ## Leaves -/

theorem zipIdx_apart {α : Type} (as : List α) : as.zipIdx.Pairwise fun x y => x.2 ≠ y.2 := by
  have numbers : (as.zipIdx.map Prod.snd).Nodup := by
    rw [List.zipIdx_map_snd]
    exact List.nodup_range'
  exact List.pairwise_map.mp numbers

namespace Vocabulary
variable {v : Vocabulary}

theorem predicateList_apart : v.predicateList.Pairwise fun x y => x.1 ≠ y.1 :=
  List.pairwise_map.mpr ((zipIdx_apart v.predicates.toList).imp fun differ same =>
    differ (PredicateId.mk.inj same))

theorem constantList_apart : v.constantList.Pairwise fun x y => x.1 ≠ y.1 :=
  List.pairwise_map.mpr ((zipIdx_apart v.constants.toList).imp fun differ same =>
    differ (ConstantId.mk.inj same))

theorem nodup_leaves (rule : Rule) : (v.leaves rule).Nodup := by
  unfold leaves
  -- In the order of the rules with leaves; the predicate or constant comes first, then the
  -- positions.
  split
  · refine List.nodup_flatMap.mpr ⟨?_, predicateList_apart.imp ?_⟩
    · rintro ⟨p, predicate⟩ _
      exact List.nodup_range.map fun i j same => (Leaf.conceptPrimitive.inj same).2
    · rintro ⟨p, _⟩ ⟨q, _⟩ differ l inP inQ
      obtain ⟨i, _, rfl⟩ := List.mem_map.mp inP
      obtain ⟨j, _, same⟩ := List.mem_map.mp inQ
      exact differ (Leaf.conceptPrimitive.inj same).1.symm
  · exact List.nodup_singleton _
  · exact List.nodup_singleton _
  · refine List.pairwise_map.mpr (constantList_apart.imp fun differ same => ?_)
    exact differ (Leaf.conceptOneOf.inj same)
  · refine List.nodup_flatMap.mpr ⟨?_, predicateList_apart.imp ?_⟩
    · rintro ⟨p, predicate⟩ _
      exact (nodup_laterPairs List.nodup_range).map fun x y same =>
        Prod.ext (Leaf.rolePrimitive.inj same).2.1 (Leaf.rolePrimitive.inj same).2.2
    · rintro ⟨p, _⟩ ⟨q, _⟩ differ l inP inQ
      obtain ⟨_, _, rfl⟩ := List.mem_map.mp inP
      obtain ⟨_, _, same⟩ := List.mem_map.mp inQ
      exact differ (Leaf.rolePrimitive.inj same).1.symm
  · exact List.nodup_singleton _
  · refine List.pairwise_filterMap.mpr (predicateList_apart.imp ?_)
    rintro ⟨p, _⟩ ⟨q, _⟩ differ l atP m atQ same
    simp only [Option.ite_none_right_eq_some, Option.some.injEq] at atP atQ
    rw [← atP.2, ← atQ.2] at same
    exact differ (Leaf.booleanNullary.inj same)
  · exact List.nodup_nil

end Vocabulary

namespace Frontier
variable {f : Frontier} {v : Vocabulary} {rule : Rule} {k : Nat}

/-! ## Distances -/

/-- The distances over operands from three layers. -/
def triples (f : Frontier) (i j l : Nat) : List Node :=
  (pairsOf (f.layer .concept i) (pairsOf (f.layer .role j) (f.layer .concept l))).map
    fun (a, r, b) => .distance a r b

theorem of_mem_triples {i j l : Nat} {node : Node} (member : node ∈ f.triples i j l) :
    ∃ a r b, node = .distance a r b ∧ a ∈ f.layer .concept i ∧ r ∈ f.layer .role j ∧
      b ∈ f.layer .concept l := by
  obtain ⟨⟨a, r, b⟩, triple, rfl⟩ := List.mem_map.mp member
  obtain ⟨source, pair⟩ := mem_pairsOf.mp triple
  obtain ⟨role, target⟩ := mem_pairsOf.mp pair
  exact ⟨a, r, b, rfl, source, role, target⟩

theorem distances_eq (f : Frontier) (k : Nat) : f.distances k
    = (splits (k - 1)).flatMap fun p => (splits p.2).flatMap fun q => f.triples p.1 q.1 q.2 := by
  simp only [distances, triples, pairsOf, List.map_flatMap, List.map_map]
  rfl

/-! ## Pairs of operands -/

section
variable (separate : f.Separate)
include separate

theorem nodup_operandPairs (op : BinaryOp) (i j : Nat) : (f.operandPairs op i j).Nodup := by
  have pairs := nodup_pairsOf (separate.nodup op.left i) (separate.nodup op.right j)
  unfold operandPairs
  split
  · split
    · exact pairs
    · split
      · exact nodup_laterPairs (separate.nodup op.left i)
      · exact List.nodup_nil
  · split
    · exact pairs.filter _
    · exact pairs

/-- The operands tell which layers they are from. -/
theorem layers_of_operandPairs {op : BinaryOp} {i j i' j' a b : Nat}
    (first : (a, b) ∈ f.operandPairs op i j) (second : (a, b) ∈ f.operandPairs op i' j') :
    (i, j) = (i', j') := by
  obtain ⟨left, right, _⟩ := of_operandPairs separate first
  obtain ⟨left', right', _⟩ := of_operandPairs separate second
  rw [separate.apart left left', separate.apart right right']

theorem operandPairs_asymm {op : BinaryOp} (commutative : op.rule.isCommutative = true)
    {i j i' j' a b : Nat} (forth : (a, b) ∈ f.operandPairs op i j) :
    (b, a) ∉ f.operandPairs op i' j' := by
  intro back
  have same := BinaryOp.left_eq_right commutative
  obtain ⟨left, right, _⟩ := of_operandPairs separate forth
  obtain ⟨left', right', _⟩ := of_operandPairs separate back
  obtain rfl : i = j' := separate.apart left (same ▸ right')
  obtain rfl : j = i' := separate.apart (same ▸ right) left'
  simp only [operandPairs, commutative, if_true, ← same] at forth back
  -- The operand from the lower layer comes first; within a layer, the one that is listed first.
  rcases Nat.lt_trichotomy i j with less | rfl | greater
  · rw [if_neg (by omega), if_neg (by omega)] at back
    cases back
  · simp only [Nat.lt_irrefl, if_false, if_true] at forth back
    exact laterPairs_asymm (separate.nodup op.left i) forth back
  · rw [if_neg (by omega), if_neg (by omega)] at forth
    cases forth

/-! ## The candidates of a rule -/

theorem nodup_binary (k : Nat) (op : BinaryOp) : (f.binary k op).Nodup := by
  refine nodup_flatMap_of_key (nodup_splits _) ?_ ?_
  · rintro ⟨i, j⟩ _
    refine (nodup_operandPairs separate op i j).map fun x y same => ?_
    exact Prod.ext (Node.binary.inj same).2.1 (Node.binary.inj same).2.2
  · rintro ⟨i, j⟩ _ ⟨i', j'⟩ _ node first second
    obtain ⟨⟨a, b⟩, pair, rfl⟩ := List.mem_map.mp first
    obtain ⟨_, pair', same⟩ := List.mem_map.mp second
    cases same
    exact layers_of_operandPairs separate pair pair'

theorem nodup_distances (k : Nat) : (f.distances k).Nodup := by
  -- The operands tell the split into three layers.
  have layers : ∀ {i j l i' j' l' : Nat} {node : Node}, node ∈ f.triples i j l →
      node ∈ f.triples i' j' l' → i = i' ∧ j = j' ∧ l = l' := by
    intro i j l i' j' l' node first second
    obtain ⟨a, r, b, rfl, source, role, target⟩ := of_mem_triples first
    obtain ⟨_, _, _, same, source', role', target'⟩ := of_mem_triples second
    cases same
    exact ⟨separate.apart source source', separate.apart role role', separate.apart target target'⟩
  have nodup : ∀ i j l, (f.triples i j l).Nodup := by
    intro i j l
    have triples := nodup_pairsOf (separate.nodup .concept i)
      (nodup_pairsOf (separate.nodup .role j) (separate.nodup .concept l))
    refine triples.map fun x y same => ?_
    obtain ⟨source, role, target⟩ := Node.distance.inj same
    exact Prod.ext source (Prod.ext role target)
  rw [distances_eq]
  refine nodup_flatMap_of_key (nodup_splits _) ?_ ?_
  · intro p _
    refine nodup_flatMap_of_key (nodup_splits _) (fun q _ => nodup p.1 q.1 q.2) ?_
    intro q _ q' _ node first second
    obtain ⟨_, here, there⟩ := layers first second
    exact Prod.ext here there
  · intro p _ p' _ node first second
    obtain ⟨q, split, first⟩ := List.mem_flatMap.mp first
    obtain ⟨q', split', second⟩ := List.mem_flatMap.mp second
    obtain ⟨source, role, target⟩ := layers first second
    have sum : q.1 + q.2 = p.2 := (mem_splits.mp split).2.2
    have sum' : q'.1 + q'.2 = p'.2 := (mem_splits.mp split').2.2
    exact Prod.ext source (by omega)

theorem nodup_projections (k : Nat) : (f.projections k).Nodup := by
  refine nodup_flatMap_of_key (separate.nodup _ _) (fun r _ => by simp) ?_
  intro r _ q _ node first second
  simp only [List.mem_cons, List.not_mem_nil, or_false] at first second
  rcases first with rfl | rfl <;> simpa using second

theorem nodup_candidates (v : Vocabulary) (rule : Rule) (k : Nat) :
    (f.candidates v rule k).Nodup := by
  unfold candidates
  split
  · exact (Vocabulary.nodup_leaves rule).map fun l m same => Node.leaf.inj same
  · unfold composites
    split
    · exact nodup_projections separate k
    · exact nodup_distances separate k
    · have unary : ∀ op, (f.unary k op).Nodup := fun op =>
        (separate.nodup _ _).map fun a b same => (Node.unary.inj same).2
      refine List.nodup_append.mpr ⟨?_, ?_, ?_⟩
      · refine nodup_flatMap_of_key (List.Nodup.filter _ (by decide)) (fun op _ => unary op) ?_
        intro op _ op' _ node first second
        obtain ⟨_, _, rfl⟩ := List.mem_map.mp first
        obtain ⟨_, _, same⟩ := List.mem_map.mp second
        exact (Node.unary.inj same).1.symm
      · refine nodup_flatMap_of_key (List.Nodup.filter _ (by decide))
          (fun op _ => nodup_binary separate k op) ?_
        intro op _ op' _ node first second
        obtain ⟨_, _, first⟩ := List.mem_flatMap.mp first
        obtain ⟨_, _, second⟩ := List.mem_flatMap.mp second
        obtain ⟨_, _, rfl⟩ := List.mem_map.mp first
        obtain ⟨_, _, same⟩ := List.mem_map.mp second
        exact (Node.binary.inj same).1.symm
      · -- One operand or two.
        rintro node first _ second rfl
        obtain ⟨_, _, first⟩ := List.mem_flatMap.mp first
        obtain ⟨_, _, second⟩ := List.mem_flatMap.mp second
        obtain ⟨_, _, second⟩ := List.mem_flatMap.mp second
        obtain ⟨_, _, rfl⟩ := List.mem_map.mp first
        obtain ⟨_, _, same⟩ := List.mem_map.mp second
        cases same

/-! ## Layers and rules -/

/-- A number for each operand that tells its layer. -/
theorem exists_count : ∃ count : Handle → Nat,
    ∀ h i, h.index ∈ f.layer h.kind i → count h = i := by
  classical
  refine ⟨fun h => if kept : ∃ i, h.index ∈ f.layer h.kind i then kept.choose else 0, ?_⟩
  intro h i member
  have kept : ∃ i, h.index ∈ f.layer h.kind i := ⟨i, member⟩
  simp only [dif_pos kept]
  exact separate.apart kept.choose_spec member

/-- A node is a candidate of one layer only. -/
theorem Candidate.layer_unique {rule' : Rule} {k' : Nat} {node : Node}
    (first : f.Candidate v rule k node) (second : f.Candidate v rule' k' node) : k = k' := by
  obtain ⟨count, counts⟩ := exists_count separate
  exact (first.applications count fun h _ => counts h).symm.trans
    (second.applications count fun h _ => counts h)

end

/-- The candidates of a rule in a layer, if they are within its limit. -/
def permitted (f : Frontier) (v : Vocabulary) (config : Config) (k : Nat) (rule : Rule) :
    List Node :=
  if k ≤ config.limits.forRule rule then f.candidates v rule k else []

def layerAgenda (f : Frontier) (v : Vocabulary) (config : Config) (k : Nat) : List Node :=
  config.rules.enabled.flatMap (f.permitted v config k)

/-- What a run goes through up to a layer, in the order in which it does. -/
def agenda (f : Frontier) (v : Vocabulary) (config : Config) (k : Nat) : List Node :=
  (List.range' 1 k).flatMap (f.layerAgenda v config)

variable {config : Config} {node : Node}

theorem agenda_succ : f.agenda v config (k + 1)
    = f.agenda v config k ++ f.layerAgenda v config (k + 1) := by
  rw [agenda, List.range'_concat, List.flatMap_append, List.flatMap_singleton, Nat.one_mul,
    Nat.add_comm 1 k]
  rfl

theorem agenda_congr {g : Frontier} (same : ∀ kind i, i < k → f.layer kind i = g.layer kind i) :
    f.agenda v config k = g.agenda v config k := by
  refine List.flatMap_congr fun j inside => ?_
  have bound := (List.mem_range'_1.mp inside).2
  refine List.flatMap_congr fun rule _ => ?_
  rw [permitted, permitted, candidates_congr fun kind i less => same kind i (by omega)]

theorem mem_permitted : node ∈ f.permitted v config k rule
    ↔ k ≤ config.limits.forRule rule ∧ node ∈ f.candidates v rule k := by
  unfold permitted
  split
  next within => exact ⟨fun member => ⟨within, member⟩, And.right⟩
  next beyond => exact ⟨fun member => absurd member List.not_mem_nil, fun member =>
    absurd member.1 beyond⟩

theorem mem_layerAgenda : node ∈ f.layerAgenda v config k
    ↔ ∃ rule, config.rules.isEnabled rule = true ∧ k ≤ config.limits.forRule rule ∧
      node ∈ f.candidates v rule k := by
  simp only [layerAgenda, List.mem_flatMap, mem_permitted, RuleSet.enabled, List.mem_filter,
    Rule.mem_all, true_and]

theorem of_mem_agenda (member : node ∈ f.agenda v config k) :
    ∃ j rule, 0 < j ∧ j ≤ k ∧ node ∈ f.candidates v rule j := by
  obtain ⟨j, inside, member⟩ := List.mem_flatMap.mp member
  obtain ⟨rule, _, _, member⟩ := mem_layerAgenda.mp member
  have bounds := List.mem_range'_1.mp inside
  exact ⟨j, rule, by omega, by omega, member⟩

theorem binary_mem_agenda {op : BinaryOp} {a b : Nat}
    (member : .binary op a b ∈ f.agenda v config k) : ∃ i j, (a, b) ∈ f.operandPairs op i j := by
  obtain ⟨_, _, _, _, member⟩ := of_mem_agenda member
  obtain ⟨_, i, j, _, pair⟩ := binary_mem_candidates.mp member
  exact ⟨i, j, pair⟩

section
variable (separate : f.Separate)
include separate

theorem nodup_agenda (v : Vocabulary) (config : Config) (k : Nat) :
    (f.agenda v config k).Nodup := by
  refine nodup_flatMap_of_key List.nodup_range' ?_ ?_
  · intro j inside
    have positive : 0 < j := (List.mem_range'_1.mp inside).1
    refine nodup_flatMap_of_key (List.Nodup.filter _ (by decide)) ?_ ?_
    · intro rule _
      unfold permitted
      split
      · exact nodup_candidates separate v rule j
      · exact List.nodup_nil
    · intro r _ r' _ node first second
      rw [← (candidate_of_mem separate positive (mem_permitted.mp first).2).rule,
        ← (candidate_of_mem separate positive (mem_permitted.mp second).2).rule]
  · intro i insideI j insideJ node first second
    obtain ⟨_, _, _, first⟩ := mem_layerAgenda.mp first
    obtain ⟨_, _, _, second⟩ := mem_layerAgenda.mp second
    exact Candidate.layer_unique separate
      (candidate_of_mem separate (List.mem_range'_1.mp insideI).1 first)
      (candidate_of_mem separate (List.mem_range'_1.mp insideJ).1 second)

/-- Two operands whose order does not matter are a candidate in one order only. -/
theorem swapped_not_mem_agenda {op : BinaryOp} (commutative : op.rule.isCommutative = true)
    {a b : Nat} (member : .binary op a b ∈ f.agenda v config k) :
    .binary op b a ∉ f.agenda v config k := by
  intro swapped
  obtain ⟨i, j, forth⟩ := binary_mem_agenda member
  obtain ⟨i', j', back⟩ := binary_mem_agenda swapped
  exact operandPairs_asymm separate commutative forth back

end

end Frontier

end PlanFeatures
