import PlanFeatures.Proofs.Grammar.Declared
import PlanFeatures.Proofs.Store.Trees

/-!
# Well-formed stores

The invariant of a store: it is grounded, its table is faithful, its nodes are over
the vocabulary and canonical, and the numbers of rule applications are right.  It
makes the tree of every stored expression normal, so that two handles are equal if
and only if their trees are alike.  Adding an expression keeps the invariant and
leaves everything that was stored before as it was.
-/

namespace PlanFeatures.Store

structure WellFormed (s : Store) : Prop extends Grounded s where
  table : s.table.WellFormed
  sizes : s.complexities.size = s.size
  declared : ∀ {i : Nat} {node : Node}, s.table.get? i = some node → node.Declared s.vocabulary
  canonical : ∀ {i : Nat} {node : Node}, s.table.get? i = some node → s.canonical node = node
  counted : ∀ {i : Nat} {node : Node}, s.table.get? i = some node →
    s.complexity? ⟨node.kind, i⟩ = some (applications s.complexity node)

/-- What is true of a stored expression and its tree. -/
structure Represents (s : Store) (h : Handle) (t : Expr) : Prop where
  tree : s.tree? h = some t
  kind : t.kind = h.kind
  formed : t.Over s.vocabulary
  normal : t.Normal
  complexity : s.complexity? h = some t.complexity

theorem wellFormed_empty? {v : Vocabulary} {bits : Nat} {s : Store}
    (made : empty? v bits = some s) : s.WellFormed := by
  obtain ⟨table, fresh, rfl⟩ := Option.map_eq_some_iff.mp made
  have faithful := UniqueTable.wellFormed_empty? fresh
  have none_stored : ∀ i, table.get? i = none := by
    simp only [UniqueTable.empty?] at fresh
    split at fresh
    · cases fresh
      intro i
      cases i <;> simp [UniqueTable.get?]
    · cases fresh
  have size : table.values.size = 0 := by
    simp only [UniqueTable.empty?] at fresh
    split at fresh
    · cases fresh; rfl
    · cases fresh
  exact {
    earlier := fun stored => by simp [none_stored] at stored
    has := fun stored => by simp [none_stored] at stored
    table := faithful
    sizes := size.symm
    declared := fun stored => by simp [none_stored] at stored
    canonical := fun stored => by simp [none_stored] at stored
    counted := fun stored => by simp [none_stored] at stored }

/-! ## Trees of a well-formed store -/

theorem Grounded.order_eq {s : Store} (grounded : s.Grounded) {a b : Handle} {x y : Expr}
    (hasA : s.Has a) (hasB : s.Has b) (treeA : s.tree? a = some x) (treeB : s.tree? b = some y) :
    s.order a b = x.order y :=
  grounded.orderBelow_eq (by omega) hasA hasB treeA treeB

theorem declared_of_tree? {v : Vocabulary} {node : Node} {f : Nat → Option Expr} {t : Expr}
    (declared : node.Declared v) (tree : node.tree? f = some t)
    (operands : ∀ h ∈ node.operands, ∀ x, f h.index = some x → x.Declared v) : t.Declared v := by
  cases node with
  | leaf l => rw [Node.tree?_leaf.mp tree]; exact declared
  | unary op a =>
    obtain ⟨x, hx, rfl⟩ := Node.tree?_unary.mp tree
    exact ⟨declared, operands _ (Node.operand_mem op a) x hx⟩
  | binary op a b =>
    obtain ⟨x, y, hx, hy, rfl⟩ := Node.tree?_binary.mp tree
    exact ⟨operands _ (Node.left_mem op a b) x hx, operands _ (Node.right_mem op a b) y hy⟩
  | distance a r b =>
    obtain ⟨x, y, z, hx, hy, hz, rfl⟩ := Node.tree?_distance.mp tree
    exact ⟨operands _ (Node.source_mem a r b) x hx, operands _ (Node.role_mem a r b) y hy,
      operands _ (Node.target_mem a r b) z hz⟩

theorem normal_of_canonical {s : Store} (grounded : s.Grounded) {node : Node} {t : Expr}
    (canonical : s.canonical node = node) (tree : node.tree? s.trees = some t)
    (has : ∀ h ∈ node.operands, s.Has h)
    (operands : ∀ h ∈ node.operands, ∀ x, s.trees h.index = some x → x.Normal) : t.Normal := by
  cases node with
  | leaf l => rw [Node.tree?_leaf.mp tree]; trivial
  | unary op a =>
    obtain ⟨x, hx, rfl⟩ := Node.tree?_unary.mp tree
    exact operands _ (Node.operand_mem op a) x hx
  | binary op a b =>
    obtain ⟨x, y, hx, hy, rfl⟩ := Node.tree?_binary.mp tree
    refine ⟨?_, operands _ (Node.left_mem op a b) x hx, operands _ (Node.right_mem op a b) y hy⟩
    intro commutative greater
    have compared := grounded.order_eq (has _ (Node.left_mem op a b))
      (has _ (Node.right_mem op a b)) hx hy
    simp only [Store.canonical, commutative, compared, greater, and_self, if_true] at canonical
    -- The node is its own swap, so both operands are one expression.
    obtain rfl : b = a := by injection canonical
    cases hx.symm.trans hy
    rw [Expr.order_self] at greater
    cases greater
  | distance a r b =>
    obtain ⟨x, y, z, hx, hy, hz, rfl⟩ := Node.tree?_distance.mp tree
    exact ⟨operands _ (Node.source_mem a r b) x hx, operands _ (Node.role_mem a r b) y hy,
      operands _ (Node.target_mem a r b) z hz⟩

theorem complexity_of_complexity? {s : Store} {h : Handle} {n : Nat}
    (found : s.complexity? h = some n) : s.complexity h = n := by
  simp [complexity, found]

theorem WellFormed.represents {s : Store} (wf : s.WellFormed) {h : Handle} (has : s.Has h) :
    ∃ t, s.Represents h t := by
  obtain ⟨t, tree, kind, wellKinded⟩ := wf.exists_tree has
  suffices t.Declared s.vocabulary ∧ t.Normal ∧ s.complexity? h = some t.complexity from
    ⟨t, tree, kind, ⟨wellKinded, this.1⟩, this.2.1, this.2.2⟩
  clear kind wellKinded
  -- By induction on the index: operands come before the node.
  obtain ⟨k, i⟩ := h
  induction i using Nat.strongRecOn generalizing k t with
  | ind i ih =>
    obtain ⟨node, stored, _⟩ := has
    have spell := (wf.trees_eq stored).symm.trans tree
    have operands : ∀ h ∈ node.operands, ∀ x, s.trees h.index = some x →
        x.Declared s.vocabulary ∧ x.Normal ∧ s.complexity? h = some x.complexity :=
      fun h member x found =>
        ih h.index (wf.earlier stored h member) x h.kind (wf.has stored h member) found
    refine ⟨?_, ?_, ?_⟩
    · exact declared_of_tree? (wf.declared stored) spell fun h member x found =>
        (operands h member x found).1
    · exact normal_of_canonical wf.toGrounded (wf.canonical stored) spell
        (wf.has stored) fun h member x found => (operands h member x found).2.1
    · show s.complexity? ⟨node.kind, i⟩ = some t.complexity
      rw [wf.counted stored]
      refine congrArg some (applications_of_tree? spell ?_)
      intro h member x found
      exact complexity_of_complexity? (operands h member x found).2.2

theorem WellFormed.eq_of_node {s : Store} (wf : s.WellFormed) {a b : Handle} {node : Node}
    (storedA : s.node? a = some node) (storedB : s.node? b = some node) (kind : a.kind = b.kind) :
    a = b := by
  obtain ⟨k, i⟩ := a
  obtain ⟨l, j⟩ := b
  obtain rfl : i = j := UniqueTable.index_unique wf.table storedA storedB
  exact congrArg (Handle.mk · i) kind

theorem WellFormed.eq_of_tree {s : Store} (wf : s.WellFormed) {a b : Handle} {t : Expr}
    (hasA : s.Has a) (hasB : s.Has b) (treeA : s.tree? a = some t) (treeB : s.tree? b = some t) :
    a = b := by
  -- The operands have one tree, so they are equal; then the nodes are, and a node is stored
  -- once.
  induction t generalizing a b with
  | leaf l =>
    obtain ⟨m, storedA, kindA⟩ := hasA
    obtain ⟨n, storedB, kindB⟩ := hasB
    obtain rfl := Node.of_tree?_leaf ((wf.trees_eq storedA).symm.trans treeA)
    obtain rfl := Node.of_tree?_leaf ((wf.trees_eq storedB).symm.trans treeB)
    exact wf.eq_of_node storedA storedB (kindA.symm.trans kindB)
  | unary op x ih =>
    obtain ⟨m, storedA, kindA⟩ := hasA
    obtain ⟨n, storedB, kindB⟩ := hasB
    obtain ⟨c, rfl, treeC⟩ := Node.of_tree?_unary ((wf.trees_eq storedA).symm.trans treeA)
    obtain ⟨d, rfl, treeD⟩ := Node.of_tree?_unary ((wf.trees_eq storedB).symm.trans treeB)
    have operand := ih (wf.has storedA _ (Node.operand_mem ..))
      (wf.has storedB _ (Node.operand_mem ..)) treeC treeD
    injection operand with _ same
    subst same
    exact wf.eq_of_node storedA storedB (kindA.symm.trans kindB)
  | binary op x y ihx ihy =>
    obtain ⟨m, storedA, kindA⟩ := hasA
    obtain ⟨n, storedB, kindB⟩ := hasB
    obtain ⟨c, c', rfl, treeC, treeC'⟩ :=
      Node.of_tree?_binary ((wf.trees_eq storedA).symm.trans treeA)
    obtain ⟨d, d', rfl, treeD, treeD'⟩ :=
      Node.of_tree?_binary ((wf.trees_eq storedB).symm.trans treeB)
    have left := ihx (wf.has storedA _ (Node.left_mem ..)) (wf.has storedB _ (Node.left_mem ..))
      treeC treeD
    have right := ihy (wf.has storedA _ (Node.right_mem ..)) (wf.has storedB _ (Node.right_mem ..))
      treeC' treeD'
    injection left with _ sameLeft
    injection right with _ sameRight
    subst sameLeft sameRight
    exact wf.eq_of_node storedA storedB (kindA.symm.trans kindB)
  | distance x y z ihx ihy ihz =>
    obtain ⟨m, storedA, kindA⟩ := hasA
    obtain ⟨n, storedB, kindB⟩ := hasB
    obtain ⟨c, r, c', rfl, treeC, treeR, treeC'⟩ :=
      Node.of_tree?_distance ((wf.trees_eq storedA).symm.trans treeA)
    obtain ⟨d, q, d', rfl, treeD, treeQ, treeD'⟩ :=
      Node.of_tree?_distance ((wf.trees_eq storedB).symm.trans treeB)
    have source := ihx (wf.has storedA _ (Node.source_mem ..))
      (wf.has storedB _ (Node.source_mem ..)) treeC treeD
    have role := ihy (wf.has storedA _ (Node.role_mem ..)) (wf.has storedB _ (Node.role_mem ..))
      treeR treeQ
    have target := ihz (wf.has storedA _ (Node.target_mem ..))
      (wf.has storedB _ (Node.target_mem ..)) treeC' treeD'
    injection source with _ sameSource
    injection role with _ sameRole
    injection target with _ sameTarget
    subst sameSource sameRole sameTarget
    exact wf.eq_of_node storedA storedB (kindA.symm.trans kindB)

/-- Handles are equal exactly when their trees are alike. -/
theorem WellFormed.eq_iff_alike {s : Store} (wf : s.WellFormed) {a b : Handle} {x y : Expr}
    (hasA : s.Has a) (hasB : s.Has b) (left : s.Represents a x) (right : s.Represents b y) :
    a = b ↔ Expr.Alike x y := by
  constructor
  · rintro rfl
    cases left.tree.symm.trans right.tree
    exact Expr.Alike.refl x
  · intro alike
    have same := alike.eq_of_normal left.formed.wellKinded right.formed.wellKinded left.normal
      right.normal
    exact wf.eq_of_tree hasA hasB left.tree (same ▸ right.tree)

/-! ## Stores that have grown -/

/-- What was stored before is stored still, at the same indices. -/
structure Extends (s s' : Store) : Prop where
  vocabulary : s'.vocabulary = s.vocabulary
  values : s.table.values.toList <+: s'.table.values.toList
  complexities : s.complexities.toList <+: s'.complexities.toList

theorem Extends.refl (s : Store) : s.Extends s :=
  ⟨rfl, List.prefix_rfl, List.prefix_rfl⟩

theorem Extends.trans {s t u : Store} (st : s.Extends t) (tu : t.Extends u) : s.Extends u :=
  ⟨tu.vocabulary.trans st.vocabulary, st.values.trans tu.values,
    st.complexities.trans tu.complexities⟩

theorem getElem?_of_prefix {α : Type} {as bs : List α} (grown : as <+: bs) {i : Nat} {a : α}
    (found : as[i]? = some a) : bs[i]? = some a := by
  obtain ⟨more, rfl⟩ := grown
  rw [List.getElem?_append_left (List.getElem?_eq_some_iff.mp found).choose, found]

section
variable {s s' : Store} (grown : s.Extends s')
include grown

theorem Extends.get? {i : Nat} {node : Node} (stored : s.table.get? i = some node) :
    s'.table.get? i = some node := by
  cases i with
  | zero => cases stored
  | succ i =>
    simp only [UniqueTable.get?, ← Array.getElem?_toList] at stored ⊢
    exact getElem?_of_prefix grown.values stored

theorem Extends.has {h : Handle} (has : s.Has h) : s'.Has h := by
  obtain ⟨node, stored, kind⟩ := has
  exact ⟨node, grown.get? stored, kind⟩

theorem Extends.size_le : s.size ≤ s'.size := by
  simpa [size, UniqueTable.size] using grown.values.length_le

theorem Extends.trees {i : Nat} (bound : i ≤ s.size) : s'.trees i = s.trees i := by
  obtain ⟨more, whole⟩ := grown.values
  rw [Store.trees, Store.trees, ← whole, treeAt?_append]
  simpa [size, UniqueTable.size] using bound

theorem Extends.tree? {h : Handle} (has : s.Has h) : s'.tree? h = s.tree? h :=
  grown.trees has.bound.2

theorem Extends.trees_some {i : Nat} {t : Expr} (tree : s.trees i = some t) :
    s'.trees i = some t := by
  have bound : i ≤ s.size := by
    by_cases inside : i ≤ s.size
    · exact inside
    · cases i with
      | zero => exact Nat.zero_le _
      | succ i =>
        have length : (treesOf s.table.values.toList).length ≤ i := by
          rw [length_treesOf]
          simp only [size, UniqueTable.size] at inside
          simpa using Nat.le_of_not_lt inside
        simp [Store.trees, treeAt?, List.getElem?_eq_none length] at tree
  rw [grown.trees bound]
  exact tree

theorem Extends.node_tree? {node : Node} {t : Expr} (tree : node.tree? s.trees = some t) :
    node.tree? s'.trees = some t :=
  Node.tree?_mono (fun _ _ found => grown.trees_some found) tree

theorem Extends.complexity? {h : Handle} {n : Nat} (counted : s.complexity? h = some n) :
    s'.complexity? h = some n := by
  obtain ⟨k, i⟩ := h
  cases i with
  | zero => cases counted
  | succ i =>
    simp only [Store.complexity?, ← Array.getElem?_toList] at counted ⊢
    exact getElem?_of_prefix grown.complexities counted

theorem Extends.represents {h : Handle} {t : Expr} (has : s.Has h) (stands : s.Represents h t) :
    s'.Represents h t where
  tree := (grown.tree? has).trans stands.tree
  kind := stands.kind
  formed := grown.vocabulary ▸ stands.formed
  normal := stands.normal
  complexity := grown.complexity? stands.complexity

end

/-! ## Canonical nodes -/

theorem rule_canonical (s : Store) (node : Node) : (s.canonical node).rule = node.rule := by
  cases node with
  | binary op a b => simp only [canonical]; split <;> rfl
  | leaf _ | unary _ _ | distance _ _ _ => rfl

theorem kind_canonical (s : Store) (node : Node) : (s.canonical node).kind = node.kind :=
  congrArg Rule.kind (rule_canonical s node)

theorem declared_canonical (s : Store) {v : Vocabulary} {node : Node} (declared : node.Declared v) :
    (s.canonical node).Declared v := by
  cases node with
  | binary op a b => simp only [canonical]; split <;> trivial
  | leaf _ | unary _ _ | distance _ _ _ => exact declared

/-- The operands may change places, but they are the same ones. -/
theorem mem_operands_canonical (s : Store) {node : Node} {h : Handle} :
    h ∈ (s.canonical node).operands ↔ h ∈ node.operands := by
  cases node with
  | binary op a b =>
    simp only [canonical]
    split
    next swapped =>
      have same := BinaryOp.left_eq_right swapped.1
      simp only [Node.operands, same, List.mem_cons, List.not_mem_nil, or_false]
      exact Or.comm
    next => rfl
  | leaf _ | unary _ _ | distance _ _ _ => rfl

theorem canonical_canonical {s : Store} (grounded : s.Grounded) {node : Node}
    (has : ∀ h ∈ node.operands, s.Has h) :
    s.canonical (s.canonical node) = s.canonical node := by
  cases node with
  | binary op a b =>
    by_cases swapped : op.rule.isCommutative = true ∧ s.order ⟨op.left, a⟩ ⟨op.right, b⟩ = .gt
    · have same := BinaryOp.left_eq_right swapped.1
      have hasA := has _ (Node.left_mem op a b)
      have hasB := has _ (Node.right_mem op a b)
      obtain ⟨x, treeA, _⟩ := grounded.exists_tree hasA
      obtain ⟨y, treeB, _⟩ := grounded.exists_tree hasB
      have forth := grounded.order_eq hasA hasB treeA treeB
      have back : s.order ⟨op.left, b⟩ ⟨op.right, a⟩ = y.order x := by
        rw [same] at hasA ⊢
        rw [← same] at hasB ⊢
        exact grounded.order_eq (same ▸ hasB) (same ▸ hasA) treeB treeA
      -- The order of trees is antisymmetric, so the swapped operands stay where they are.
      have rest : s.order ⟨op.left, b⟩ ⟨op.right, a⟩ ≠ .gt := by
        rw [back, ← Expr.order_swap x y, ← forth, swapped.2]
        decide
      simp [canonical, swapped, rest]
    · simp [canonical, swapped]
  | leaf _ | unary _ _ | distance _ _ _ => rfl

theorem alike_canonical (s : Store) {node : Node} {f : Nat → Option Expr} {t : Expr}
    (tree : node.tree? f = some t) :
    ∃ u, (s.canonical node).tree? f = some u ∧ Expr.Alike u t := by
  cases node with
  | binary op a b =>
    obtain ⟨x, y, hx, hy, rfl⟩ := Node.tree?_binary.mp tree
    simp only [canonical]
    split
    next swapped =>
      exact ⟨.binary op y x, by simp [Node.tree?, hx, hy],
        .swapped op swapped.1 (.refl y) (.refl x)⟩
    next => exact ⟨_, tree, .refl _⟩
  | leaf _ | unary _ _ | distance _ _ _ => exact ⟨t, tree, .refl t⟩

/-! ## Adding expressions -/

/-- The store after a new node. -/
def push (s : Store) (node : Node) : Store :=
  ⟨s.vocabulary, s.table.push node, s.complexities.push (applications s.complexity node)⟩

/-- Either the canonical node is stored already and nothing changes, or it becomes
the last one. -/
theorem insert_cases {s : Store} (table : s.table.WellFormed) (node : Node) :
    (∃ i, s.table.get? i = some (s.canonical node) ∧ s.insert node = (⟨node.kind, i⟩, s)) ∨
      ((∀ i, s.table.get? i ≠ some (s.canonical node)) ∧
        s.insert node = (⟨node.kind, s.size + 1⟩, s.push (s.canonical node)) ∧
        (s.push (s.canonical node)).table.WellFormed) := by
  rcases UniqueTable.put_cases table (s.canonical node) with
    ⟨i, stored, put⟩ | ⟨absent, put, faithful⟩
  · refine Or.inl ⟨i, stored, ?_⟩
    have bound := (UniqueTable.get?_bound stored).2
    simp only [insert, put, kind_canonical, if_neg (Nat.not_lt.mpr bound)]
  · refine Or.inr ⟨absent, ?_, faithful⟩
    simp only [insert, put, kind_canonical, if_pos (Nat.lt_succ_self _)]
    rfl

theorem extends_push (s : Store) (node : Node) : s.Extends (s.push node) where
  vocabulary := rfl
  values := by simp [push]
  complexities := by simp [push]

theorem get?_push (s : Store) (node : Node) (i : Nat) :
    (s.push node).table.get? i = if i = s.size + 1 then some node else s.table.get? i :=
  UniqueTable.get?_push (UniqueTable.values_push s.table node) i

theorem Grounded.canonical_extends {s s' : Store} (grounded : s.Grounded) (grounded' : s'.Grounded)
    (grown : s.Extends s') {node : Node} (has : ∀ h ∈ node.operands, s.Has h) :
    s'.canonical node = s.canonical node := by
  cases node with
  | binary op a b =>
    have hasA := has _ (Node.left_mem op a b)
    have hasB := has _ (Node.right_mem op a b)
    obtain ⟨x, treeA, _⟩ := grounded.exists_tree hasA
    obtain ⟨y, treeB, _⟩ := grounded.exists_tree hasB
    -- The order is that of the trees, which are the same in both stores.
    have before := grounded.order_eq hasA hasB treeA treeB
    have after := grounded'.order_eq (grown.has hasA) (grown.has hasB)
      ((grown.tree? hasA).trans treeA) ((grown.tree? hasB).trans treeB)
    simp only [canonical, before, after]
  | leaf _ | unary _ _ | distance _ _ _ => rfl

theorem applications_congr {f g : Handle → Nat} {node : Node}
    (agree : ∀ h ∈ node.operands, f h = g h) : applications f node = applications g node := by
  unfold applications
  generalize node.operands = operands at agree ⊢
  induction operands with
  | nil => rfl
  | cons h operands ih =>
    rw [List.foldr_cons, List.foldr_cons, agree h List.mem_cons_self,
      ih fun h' member => agree h' (List.mem_cons_of_mem h member)]

theorem Extends.complexity {s s' : Store} (grown : s.Extends s') (wf : s.WellFormed) {h : Handle}
    (has : s.Has h) : s'.complexity h = s.complexity h := by
  obtain ⟨t, stands⟩ := wf.represents has
  rw [complexity_of_complexity? stands.complexity,
    complexity_of_complexity? (grown.complexity? stands.complexity)]

theorem Grounded.push {s : Store} (grounded : s.Grounded) {node : Node}
    (operands : ∀ h ∈ node.operands, s.Has h) : (s.push node).Grounded := by
  have grown := extends_push s node
  constructor
  · intro i n stored h member
    rw [get?_push] at stored
    split at stored
    next last =>
      cases stored
      have bound := (operands h member).bound
      omega
    next => exact grounded.earlier stored h member
  · intro i n stored h member
    rw [get?_push] at stored
    split at stored
    next last => cases stored; exact grown.has (operands h member)
    next => exact grown.has (grounded.has stored h member)

theorem WellFormed.push {s : Store} (wf : s.WellFormed) {node : Node}
    (operands : ∀ h ∈ node.operands, s.Has h) (declared : node.Declared s.vocabulary)
    (canonical : s.canonical node = node) (table : (s.push node).table.WellFormed) :
    (s.push node).WellFormed := by
  have grown := extends_push s node
  have grounded := wf.toGrounded.push operands
  -- A node of the old store or the new one, with operands in the old store.
  have cases_of : ∀ {i : Nat} {n : Node}, (s.push node).table.get? i = some n →
      (i = s.size + 1 ∧ n = node) ∨ s.table.get? i = some n := by
    intro i n stored
    rw [get?_push] at stored
    split at stored
    next last => exact Or.inl ⟨last, (Option.some.inj stored).symm⟩
    next => exact Or.inr stored
  refine { toGrounded := grounded, table := table, sizes := ?_, declared := ?_, canonical := ?_,
           counted := ?_ }
  · have sizes := wf.sizes
    simp only [size, UniqueTable.size] at sizes ⊢
    simp [Store.push, sizes]
  · intro i n stored
    rcases cases_of stored with ⟨_, rfl⟩ | old
    · exact declared
    · exact wf.declared old
  · intro i n stored
    rcases cases_of stored with ⟨_, rfl⟩ | old
    · rw [wf.canonical_extends grounded grown operands, canonical]
    · rw [wf.canonical_extends grounded grown (wf.has old), wf.canonical old]
  · intro i n stored
    rcases cases_of stored with ⟨rfl, rfl⟩ | old
    · rw [applications_congr fun h member => grown.complexity wf (operands h member)]
      simp [Store.complexity?, Store.push, ← wf.sizes]
    · rw [applications_congr fun h member => grown.complexity wf (wf.has old h member)]
      exact grown.complexity? (wf.counted old)

/-- What adding an expression does. -/
structure Inserted (s : Store) (node : Node) (h : Handle) (s' : Store) : Prop where
  wellFormed : s'.WellFormed
  grown : s.Extends s'
  stored : s'.node? h = some (s.canonical node)
  kind : h.kind = node.kind
  unchanged : s'.size ≤ s.size → s' = s
  only : ∀ {g}, s'.Has g → s.Has g ∨ g = h

theorem WellFormed.insert {s : Store} (wf : s.WellFormed) {node : Node}
    (operands : ∀ h ∈ node.operands, s.Has h) (declared : node.Declared s.vocabulary) :
    s.Inserted node (s.insert node).1 (s.insert node).2 := by
  have operands' : ∀ h ∈ (s.canonical node).operands, s.Has h := fun h member =>
    operands h ((mem_operands_canonical s).mp member)
  rcases insert_cases wf.table node with ⟨i, stored, result⟩ | ⟨_, result, faithful⟩
  · rw [result]
    exact ⟨wf, .refl s, stored, rfl, fun _ => rfl, Or.inl⟩
  · rw [result]
    refine ⟨wf.push operands' (declared_canonical s declared)
      (canonical_canonical wf.toGrounded operands) faithful, extends_push s _, ?_, rfl, ?_, ?_⟩
    · show (s.push (s.canonical node)).table.get? (s.size + 1) = _
      rw [get?_push, if_pos rfl]
    · intro bound
      have grown : (s.push (s.canonical node)).size = s.size + 1 := by
        simp [Store.push, Store.size, UniqueTable.size]
      exact absurd (grown ▸ bound) (Nat.not_succ_le_self _)
    · rintro ⟨kind, i⟩ ⟨n, stored, same⟩
      change (s.push (s.canonical node)).table.get? i = some n at stored
      rw [get?_push] at stored
      split at stored
      next last =>
        cases stored
        have kind := same.symm.trans (kind_canonical s node)
        exact Or.inr (congr (congrArg Handle.mk kind) last)
      next => exact Or.inl ⟨n, stored, same⟩

theorem Inserted.has {s s' : Store} {node : Node} {h : Handle} (added : s.Inserted node h s') :
    s'.Has h :=
  ⟨_, added.stored, (kind_canonical s node).trans added.kind.symm⟩

/-- The new handle stands for the node's tree, up to the order of operands. -/
theorem Inserted.represents {s s' : Store} {node : Node} {h : Handle}
    (added : s.Inserted node h s') (operands : ∀ h ∈ node.operands, s.Has h) {t : Expr}
    (tree : node.tree? s.trees = some t) : ∃ u, s'.Represents h u ∧ Expr.Alike u t := by
  obtain ⟨u, stands⟩ := added.wellFormed.represents added.has
  refine ⟨u, stands, ?_⟩
  -- What is stored is the canonical node, over operands that are as they were.
  obtain ⟨x, spell, alike⟩ := alike_canonical s tree
  have whole : s'.tree? h = some x := by
    rw [tree?_eq, added.wellFormed.trees_eq added.stored, ← spell]
    exact Node.tree?_congr fun g member =>
      added.grown.tree? (operands g ((mem_operands_canonical s).mp member))
  cases stands.tree.symm.trans whole
  exact alike

end PlanFeatures.Store
