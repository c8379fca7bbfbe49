import Mathlib.Data.List.Forall2
import PlanFeatures.Proofs.Generation.Deduplication
import PlanFeatures.Proofs.Store.RoundTrip

/-!
# Twins in two stores

Twins are handles of two stores that stand for the same tree.  Either one determines the
other, and all that a caller learns of the one is true of the other.  Layers that list
twins offer twin candidates: nodes that spell the same tree in their stores, in the same
order.
-/

namespace PlanFeatures

namespace Store

/-- The stores have the same tree at two indices. -/
def SameTree (s s' : Store) (i j : Nat) : Prop := ∃ t, s.trees i = some t ∧ s'.trees j = some t

/-- The nodes have the same tree over their stores. -/
def Spells (s s' : Store) (m n : Node) : Prop :=
  ∃ t, m.tree? s.trees = some t ∧ n.tree? s'.trees = some t

structure Twins (s s' : Store) (h g : Handle) : Prop where
  left : s.Has h
  right : s'.Has g
  tree : ∃ t, s.Represents h t ∧ s'.Represents g t

variable {s s' u u' : Store} {h g h' g' : Handle}

namespace Twins

theorem kind (twins : s.Twins s' h g) : h.kind = g.kind := by
  obtain ⟨t, stands, stands'⟩ := twins.tree
  exact stands.kind.symm.trans stands'.kind

theorem complexity (twins : s.Twins s' h g) : s.complexity h = s'.complexity g := by
  obtain ⟨t, stands, stands'⟩ := twins.tree
  rw [complexity_of_complexity? stands.complexity, complexity_of_complexity? stands'.complexity]

theorem sameTree (twins : s.Twins s' h g) : s.SameTree s' h.index g.index := by
  obtain ⟨t, stands, stands'⟩ := twins.tree
  exact ⟨t, stands.tree, stands'.tree⟩

theorem copied (twins : s.Twins s' h g) (wf : s.WellFormed) (wf' : s'.WellFormed)
    (vocabulary : s'.vocabulary = s.vocabulary) : s.Copied h s' g := by
  obtain ⟨t, stands, stands'⟩ := twins.tree
  exact copied_of_represents wf wf' vocabulary twins.left stands twins.right stands'

theorem vector_eq (twins : s.Twins s' h g) {states : List State} {vector vector' : ExtensionVector}
    (first : s.Denotes states h vector) (second : s'.Denotes states g vector') :
    vector = vector' := by
  obtain ⟨t, stands, stands'⟩ := twins.tree
  exact Except.ok.inj ((first.vector_eq stands.tree).symm.trans (second.vector_eq stands'.tree))

/-- Twins that are features have the same values. -/
theorem exists_value {f f' : Feature} (twins : s.Twins s' f.handle f'.handle) (wf : s.WellFormed)
    (wf' : s'.WellFormed) (vocabulary : s'.vocabulary = s.vocabulary)
    (feature : f.handle.kind.isFeature = true) {state : State} (belongs : state.Over s.vocabulary) :
    ∃ x, f.value s state = .ok x ∧ f'.value s' state = .ok x := by
  obtain ⟨t, stands, stands'⟩ := twins.tree
  obtain ⟨d, value, kind⟩ := Expr.denote_ok belongs stands.formed
  have here := (wf.evaluate_eq belongs twins.left stands).trans value
  have there := (wf'.evaluate_eq (vocabulary ▸ belongs) twins.right stands').trans value
  obtain ⟨x, found, shape⟩ := Feature.exists_value here (kind.trans stands.kind) feature
  obtain ⟨x', found', shape'⟩ := Feature.exists_value there (kind.trans stands'.kind)
    (twins.kind ▸ feature)
  cases shape.symm.trans shape'
  exact ⟨x, found, found'⟩

end Twins

theorem Twins.extends (twins : s.Twins s' h g) (grown : s.Extends u) (grown' : s'.Extends u') :
    u.Twins u' h g := by
  obtain ⟨t, stands, stands'⟩ := twins.tree
  exact ⟨grown.has twins.left, grown'.has twins.right, t, grown.represents twins.left stands,
    grown'.represents twins.right stands'⟩

/-- Handles of nodes that spell the same tree are twins. -/
theorem twins_of_interned {m n : Node} (spells : s.Spells s' m n) (interned : s.Interned h m)
    (interned' : s'.Interned g n) : s.Twins s' h g := by
  obtain ⟨t, treeM, treeN⟩ := spells
  obtain ⟨t₁, x, tree, stands, alike⟩ := interned.tree
  obtain ⟨t₂, y, tree', stands', alike'⟩ := interned'.tree
  cases treeM.symm.trans tree
  cases treeN.symm.trans tree'
  -- Both stores keep the normal form of the tree.
  have same : x = y := (alike.trans alike'.symm).eq_of_normal stands.formed.wellKinded
    stands'.formed.wellKinded stands.normal stands'.normal
  exact ⟨interned.has, interned'.has, x, stands, same ▸ stands'⟩

/-! ## Indices -/

/-- All indices from one up to the size are in use. -/
theorem exists_has {i : Nat} (positive : 0 < i) (bound : i ≤ s.size) : ∃ kind, s.Has ⟨kind, i⟩ := by
  obtain ⟨i, rfl⟩ := Nat.exists_eq_add_of_lt positive
  have inside : i < s.table.values.size := by
    rw [size, UniqueTable.size] at bound
    omega
  refine ⟨s.table.values[i].kind, s.table.values[i], ?_, rfl⟩
  rw [node?, Nat.zero_add, UniqueTable.get?, Array.getElem?_eq_getElem inside]

theorem exists_has_of_trees {i : Nat} {t : Expr} (tree : s.trees i = some t) :
    ∃ kind, s.Has ⟨kind, i⟩ := by
  cases i with
  | zero => cases tree
  | succ i =>
    refine exists_has i.succ_pos (Nat.lt_of_not_le fun beyond => ?_)
    rw [size, UniqueTable.size, ← Array.length_toList, ← length_treesOf] at beyond
    rw [trees, treeAt?, List.getElem?_eq_none beyond] at tree
    cases tree

theorem WellFormed.index_unique (wf : s.WellFormed) {i j : Nat} {t : Expr}
    (first : s.trees i = some t) (second : s.trees j = some t) : i = j := by
  obtain ⟨_, hasI⟩ := exists_has_of_trees first
  obtain ⟨_, hasJ⟩ := exists_has_of_trees second
  exact congrArg Handle.index (wf.eq_of_tree hasI hasJ first second)

theorem SameTree.eq_iff (wf : s.WellFormed) (wf' : s'.WellFormed) {i j i' j' : Nat}
    (first : s.SameTree s' i j) (second : s.SameTree s' i' j') : i = i' ↔ j = j' := by
  obtain ⟨t, here, there⟩ := first
  obtain ⟨t', here', there'⟩ := second
  constructor
  · rintro rfl
    cases here.symm.trans here'
    exact wf'.index_unique there there'
  · rintro rfl
    cases there.symm.trans there'
    exact wf.index_unique here here'

/-! ## Nodes -/

theorem Spells.extends {m n : Node} (spells : s.Spells s' m n) (grown : s.Extends u)
    (grown' : s'.Extends u') : u.Spells u' m n := by
  obtain ⟨t, treeM, treeN⟩ := spells
  exact ⟨t, grown.node_tree? treeM, grown'.node_tree? treeN⟩

namespace Spells

theorem leaf (l : Leaf) : s.Spells s' (.leaf l) (.leaf l) := ⟨.leaf l, rfl, rfl⟩

theorem unary (op : UnaryOp) {a b : Nat} (operand : s.SameTree s' a b) :
    s.Spells s' (.unary op a) (.unary op b) := by
  obtain ⟨x, here, there⟩ := operand
  exact ⟨.unary op x, by rw [Node.tree?_unary]; exact ⟨x, here, rfl⟩,
    by rw [Node.tree?_unary]; exact ⟨x, there, rfl⟩⟩

theorem binary (op : BinaryOp) {a b c d : Nat} (left : s.SameTree s' a c)
    (right : s.SameTree s' b d) : s.Spells s' (.binary op a b) (.binary op c d) := by
  obtain ⟨x, hereX, thereX⟩ := left
  obtain ⟨y, hereY, thereY⟩ := right
  exact ⟨.binary op x y, Node.tree?_binary.mpr ⟨x, y, hereX, hereY, rfl⟩,
    Node.tree?_binary.mpr ⟨x, y, thereX, thereY, rfl⟩⟩

theorem distance {a r b c q d : Nat} (source : s.SameTree s' a c) (role : s.SameTree s' r q)
    (target : s.SameTree s' b d) : s.Spells s' (.distance a r b) (.distance c q d) := by
  obtain ⟨x, hereX, thereX⟩ := source
  obtain ⟨y, hereY, thereY⟩ := role
  obtain ⟨z, hereZ, thereZ⟩ := target
  exact ⟨.distance x y z, Node.tree?_distance.mpr ⟨x, y, z, hereX, hereY, hereZ, rfl⟩,
    Node.tree?_distance.mpr ⟨x, y, z, thereX, thereY, thereZ, rfl⟩⟩

end Spells
end Store

/-! ## Lists of candidates -/

open List

section
variable {α β : Type} {R : α → β → Prop}

/-- Both components are related. -/
def Both (R : α → β → Prop) (p : α × α) (q : β × β) : Prop := R p.1 q.1 ∧ R p.2 q.2

theorem forall₂_pairsOf {as bs : List α} {cs ds : List β} (first : Forall₂ R as cs)
    (second : Forall₂ R bs ds) : Forall₂ (Both R) (pairsOf as bs) (pairsOf cs ds) :=
  rel_flatMap first fun _ _ left => rel_map (fun _ _ right => ⟨left, right⟩) second

theorem forall₂_laterPairs {as : List α} {bs : List β} (related : Forall₂ R as bs) :
    Forall₂ (Both R) (laterPairs as) (laterPairs bs) := by
  induction related with
  | nil => exact .nil
  | cons here rest ih => exact rel_append (rel_map (fun _ _ there => ⟨here, there⟩) rest) ih

theorem forall₂_batches (size : Nat) {as : List α} {bs : List β} (related : Forall₂ R as bs) :
    Forall₂ (Forall₂ R) (batches size as) (batches size bs) := by
  fun_induction batches size as generalizing bs with
  | case1 =>
    cases related
    rw [batches]
    exact .nil
  | case2 a as ih =>
    cases related with
    | cons here rest =>
      rw [batches]
      exact .cons (.cons here (forall₂_take _ rest)) (ih (forall₂_drop _ rest))

end

namespace Frontier
variable {s s' : Store} {f g : Frontier}

theorem forall₂_candidates (wf : s.WellFormed) (wf' : s'.WellFormed)
    (layers : ∀ kind i, Forall₂ (s.SameTree s') (f.layer kind i) (g.layer kind i))
    (v : Vocabulary) (rule : Rule) (k : Nat) :
    Forall₂ (s.Spells s') (f.candidates v rule k) (g.candidates v rule k) := by
  have pairs : ∀ op i j,
      Forall₂ (Both (s.SameTree s')) (f.operandPairs op i j) (g.operandPairs op i j) := by
    intro op i j
    have all := forall₂_pairsOf (layers op.left i) (layers op.right j)
    unfold operandPairs
    split
    · split
      · exact all
      · split
        · exact forall₂_laterPairs (layers op.left i)
        · exact .nil
    · split
      · -- Operands are the same expression in both stores or in none.
        refine rel_filter (fun p q both => ?_) all
        simp only [decide_eq_true_eq, ne_eq, both.1.eq_iff wf wf' both.2]
      · exact all
  have unary : ∀ op, Forall₂ (s.Spells s') (f.unary k op) (g.unary k op) := fun op =>
    rel_map (fun _ _ operand => .unary op operand) (layers _ _)
  have binary : ∀ op, Forall₂ (s.Spells s') (f.binary k op) (g.binary k op) := by
    intro op
    refine rel_flatMap (R := Eq) (forall₂_refl _) ?_
    rintro ⟨i, j⟩ _ rfl
    exact rel_map (fun _ _ both => .binary op both.1 both.2) (pairs op i j)
  have projections : Forall₂ (s.Spells s') (f.projections k) (g.projections k) :=
    rel_flatMap (layers _ _) fun _ _ role => .cons (.unary _ role) (.cons (.unary _ role) .nil)
  have distances : Forall₂ (s.Spells s') (f.distances k) (g.distances k) := by
    refine rel_flatMap (R := Eq) (forall₂_refl _) ?_
    rintro ⟨i, rest⟩ _ rfl
    refine rel_flatMap (R := Eq) (forall₂_refl _) ?_
    rintro ⟨j, l⟩ _ rfl
    refine rel_flatMap (layers .concept i) fun _ _ source => ?_
    exact rel_map (fun _ _ both => .distance source both.1 both.2)
      (forall₂_pairsOf (layers .role j) (layers .concept l))
  unfold candidates
  split
  · exact rel_map (R := Eq) (fun l _ same => same ▸ .leaf l) (forall₂_refl _)
  · unfold composites
    split
    · exact projections
    · exact distances
    · refine rel_append (rel_flatMap (R := Eq) (forall₂_refl _) ?_)
        (rel_flatMap (R := Eq) (forall₂_refl _) ?_)
      · rintro op _ rfl
        exact unary op
      · rintro op _ rfl
        exact binary op

end Frontier
end PlanFeatures
