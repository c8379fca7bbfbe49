import PlanFeatures.Proofs.Grammar.NormalForm
import PlanFeatures.Proofs.Store.UniqueTable
import PlanFeatures.Store.Tree

/-!
# Trees and order of stored expressions

In a grounded store the operands of a node come before it and have the kinds that
the node takes.  Then every stored expression has a tree, and the structural order
of two stored expressions is the order of their trees, however the two are
numbered.
-/

namespace PlanFeatures

/-! ## Nodes and their trees -/

theorem Node.operand_mem (op : UnaryOp) (a : Nat) :
    ⟨op.operand, a⟩ ∈ (Node.unary op a).operands :=
  List.mem_singleton_self _

theorem Node.left_mem (op : BinaryOp) (a b : Nat) : ⟨op.left, a⟩ ∈ (Node.binary op a b).operands :=
  List.mem_cons_self

theorem Node.right_mem (op : BinaryOp) (a b : Nat) :
    ⟨op.right, b⟩ ∈ (Node.binary op a b).operands :=
  List.mem_cons_of_mem _ (List.mem_singleton_self _)

theorem Node.source_mem (a r b : Nat) : ⟨.concept, a⟩ ∈ (Node.distance a r b).operands :=
  List.mem_cons_self

theorem Node.role_mem (a r b : Nat) : ⟨.role, r⟩ ∈ (Node.distance a r b).operands :=
  List.mem_cons_of_mem _ List.mem_cons_self

theorem Node.target_mem (a r b : Nat) : ⟨.concept, b⟩ ∈ (Node.distance a r b).operands :=
  List.mem_cons_of_mem _ (List.mem_cons_of_mem _ (List.mem_singleton_self _))

/-- The tree of a node depends on the trees of its operands only. -/
theorem Node.tree?_congr {node : Node} {f g : Nat → Option Expr}
    (agree : ∀ h ∈ node.operands, f h.index = g h.index) : node.tree? f = node.tree? g := by
  cases node with
  | leaf l => rfl
  | unary op a =>
    have first := agree _ (Node.operand_mem op a)
    simp only [Node.tree?, first]
  | binary op a b =>
    have left := agree _ (Node.left_mem op a b)
    have right := agree _ (Node.right_mem op a b)
    simp only [Node.tree?, left, right]
  | distance a r b =>
    have source := agree _ (Node.source_mem a r b)
    have role := agree _ (Node.role_mem a r b)
    have target := agree _ (Node.target_mem a r b)
    simp only [Node.tree?, source, role, target]

/-- The trees of the operands make up the tree of the node. -/
theorem Node.exists_tree? {node : Node} {f : Nat → Option Expr}
    (operands : ∀ h ∈ node.operands, ∃ t, f h.index = some t) :
    ∃ t, node.tree? f = some t := by
  cases node with
  | leaf l => exact ⟨_, rfl⟩
  | unary op a =>
    obtain ⟨x, hx⟩ := operands _ (Node.operand_mem op a)
    exact ⟨.unary op x, by simp [Node.tree?, hx]⟩
  | binary op a b =>
    obtain ⟨x, hx⟩ := operands _ (Node.left_mem op a b)
    obtain ⟨y, hy⟩ := operands _ (Node.right_mem op a b)
    exact ⟨.binary op x y, by simp [Node.tree?, hx, hy]⟩
  | distance a r b =>
    obtain ⟨x, hx⟩ := operands _ (Node.source_mem a r b)
    obtain ⟨y, hy⟩ := operands _ (Node.role_mem a r b)
    obtain ⟨z, hz⟩ := operands _ (Node.target_mem a r b)
    exact ⟨.distance x y z, by simp [Node.tree?, hx, hy, hz]⟩

section
variable {f : Nat → Option Expr} {t : Expr}

theorem Node.tree?_leaf {l : Leaf} : (Node.leaf l).tree? f = some t ↔ t = .leaf l := by
  simp [Node.tree?, eq_comm]

theorem Node.tree?_unary {op : UnaryOp} {a : Nat} :
    (Node.unary op a).tree? f = some t ↔ ∃ x, f a = some x ∧ t = .unary op x := by
  simp [Node.tree?, Option.bind_eq_some_iff, @eq_comm _ t]

theorem Node.tree?_binary {op : BinaryOp} {a b : Nat} :
    (Node.binary op a b).tree? f = some t
      ↔ ∃ x y, f a = some x ∧ f b = some y ∧ t = .binary op x y := by
  simp [Node.tree?, Option.bind_eq_some_iff, @eq_comm _ t]

theorem Node.tree?_distance {a r b : Nat} :
    (Node.distance a r b).tree? f = some t
      ↔ ∃ x y z, f a = some x ∧ f r = some y ∧ f b = some z ∧ t = .distance x y z := by
  simp [Node.tree?, Option.bind_eq_some_iff, @eq_comm _ t]

/-- Operands that have trees keep them when more becomes known. -/
theorem Node.tree?_mono {node : Node} {g : Nat → Option Expr}
    (more : ∀ i x, f i = some x → g i = some x) (tree : node.tree? f = some t) :
    node.tree? g = some t := by
  cases node with
  | leaf l => exact tree
  | unary op a =>
    obtain ⟨x, hx, rfl⟩ := Node.tree?_unary.mp tree
    exact Node.tree?_unary.mpr ⟨x, more a x hx, rfl⟩
  | binary op a b =>
    obtain ⟨x, y, hx, hy, rfl⟩ := Node.tree?_binary.mp tree
    exact Node.tree?_binary.mpr ⟨x, y, more a x hx, more b y hy, rfl⟩
  | distance a r b =>
    obtain ⟨x, y, z, hx, hy, hz, rfl⟩ := Node.tree?_distance.mp tree
    exact Node.tree?_distance.mpr ⟨x, y, z, more a x hx, more r y hy, more b z hz, rfl⟩

theorem Node.of_tree?_leaf {node : Node} {l : Leaf} (tree : node.tree? f = some (.leaf l)) :
    node = .leaf l := by
  cases node with
  | leaf m => cases Node.tree?_leaf.mp tree; rfl
  | unary op a => obtain ⟨_, _, shape⟩ := Node.tree?_unary.mp tree; cases shape
  | binary op a b => obtain ⟨_, _, _, _, shape⟩ := Node.tree?_binary.mp tree; cases shape
  | distance a r b => obtain ⟨_, _, _, _, _, _, shape⟩ := Node.tree?_distance.mp tree; cases shape

theorem Node.of_tree?_unary {node : Node} {op : UnaryOp} {x : Expr}
    (tree : node.tree? f = some (.unary op x)) : ∃ a, node = .unary op a ∧ f a = some x := by
  cases node with
  | leaf m => cases Node.tree?_leaf.mp tree
  | unary op a =>
    obtain ⟨_, found, shape⟩ := Node.tree?_unary.mp tree
    cases shape
    exact ⟨a, rfl, found⟩
  | binary op a b => obtain ⟨_, _, _, _, shape⟩ := Node.tree?_binary.mp tree; cases shape
  | distance a r b => obtain ⟨_, _, _, _, _, _, shape⟩ := Node.tree?_distance.mp tree; cases shape

theorem Node.of_tree?_binary {node : Node} {op : BinaryOp} {x y : Expr}
    (tree : node.tree? f = some (.binary op x y)) :
    ∃ a b, node = .binary op a b ∧ f a = some x ∧ f b = some y := by
  cases node with
  | leaf m => cases Node.tree?_leaf.mp tree
  | unary op a => obtain ⟨_, _, shape⟩ := Node.tree?_unary.mp tree; cases shape
  | binary op a b =>
    obtain ⟨_, _, left, right, shape⟩ := Node.tree?_binary.mp tree
    cases shape
    exact ⟨a, b, rfl, left, right⟩
  | distance a r b => obtain ⟨_, _, _, _, _, _, shape⟩ := Node.tree?_distance.mp tree; cases shape

theorem Node.of_tree?_distance {node : Node} {x y z : Expr}
    (tree : node.tree? f = some (.distance x y z)) :
    ∃ a r b, node = .distance a r b ∧ f a = some x ∧ f r = some y ∧ f b = some z := by
  cases node with
  | leaf m => cases Node.tree?_leaf.mp tree
  | unary op a => obtain ⟨_, _, shape⟩ := Node.tree?_unary.mp tree; cases shape
  | binary op a b => obtain ⟨_, _, _, _, shape⟩ := Node.tree?_binary.mp tree; cases shape
  | distance a r b =>
    obtain ⟨_, _, _, source, role, target, shape⟩ := Node.tree?_distance.mp tree
    cases shape
    exact ⟨a, r, b, rfl, source, role, target⟩

end

theorem Node.rule_of_tree? {node : Node} {f : Nat → Option Expr} {t : Expr}
    (tree : node.tree? f = some t) : t.rule = node.rule := by
  cases node with
  | leaf l => rw [Node.tree?_leaf.mp tree]; rfl
  | unary op a => obtain ⟨x, _, rfl⟩ := Node.tree?_unary.mp tree; rfl
  | binary op a b => obtain ⟨x, y, _, _, rfl⟩ := Node.tree?_binary.mp tree; rfl
  | distance a r b => obtain ⟨x, y, z, _, _, _, rfl⟩ := Node.tree?_distance.mp tree; rfl

theorem Node.length_operands (node : Node) : node.operands.length = node.rule.operandCount := by
  cases node with
  | leaf l => exact l.operandCount_rule.symm
  | unary op _ => exact op.operandCount_rule.symm
  | binary op _ _ => exact op.operandCount_rule.symm
  | distance => rfl

theorem Node.symbols_of_tree? {node : Node} {f : Nat → Option Expr} {t : Expr}
    (tree : node.tree? f = some t) : t.symbols = node.symbols := by
  cases node with
  | leaf l => rw [Node.tree?_leaf.mp tree]; rfl
  | unary op a => obtain ⟨x, _, rfl⟩ := Node.tree?_unary.mp tree; rfl
  | binary op a b => obtain ⟨x, y, _, _, rfl⟩ := Node.tree?_binary.mp tree; rfl
  | distance a r b => obtain ⟨x, y, z, _, _, _, rfl⟩ := Node.tree?_distance.mp tree; rfl

namespace Store

/-! ## Trees by index -/

/-- The trees of the store, by index. -/
def trees (s : Store) : Nat → Option Expr := treeAt? (treesOf s.table.values.toList)

theorem tree?_eq (s : Store) (h : Handle) : s.tree? h = s.trees h.index := rfl

theorem treeAt?_append {nodes more : List Node} {i : Nat} (bound : i ≤ nodes.length) :
    treeAt? (treesOf (nodes ++ more)) i = treeAt? (treesOf nodes) i := by
  obtain ⟨rest, whole⟩ := treesOf_prefix nodes more
  cases i with
  | zero => rfl
  | succ i =>
    have inside : i < (treesOf nodes).length := by rw [length_treesOf]; omega
    simp only [treeAt?, ← whole, List.getElem?_append_left inside]

/-- The tree at a place is the tree of the node there, over the nodes before it. -/
theorem treeAt?_snoc (nodes : List Node) (node : Node) (more : List Node) :
    treeAt? (treesOf (nodes ++ node :: more)) (nodes.length + 1)
      = node.tree? (treeAt? (treesOf nodes)) := by
  have split : nodes ++ node :: more = (nodes ++ [node]) ++ more := by simp
  rw [split, treeAt?_append (by simp), treesOf_append]
  have last : nodes.length = (treesOf nodes).length := (length_treesOf nodes).symm
  simp [treeAt?, last]

/-- The store has an expression with the handle's index, and it is of the handle's
kind. -/
def Has (s : Store) (h : Handle) : Prop := ∃ node, s.node? h = some node ∧ node.kind = h.kind

theorem Has.bound {s : Store} {h : Handle} (has : s.Has h) : 1 ≤ h.index ∧ h.index ≤ s.size := by
  obtain ⟨node, stored, _⟩ := has
  exact UniqueTable.get?_bound stored

/-- Operands are earlier expressions of the kinds that the node takes. -/
structure Grounded (s : Store) : Prop where
  earlier : ∀ {i : Nat} {node : Node}, s.table.get? i = some node →
    ∀ h ∈ node.operands, h.index < i
  has : ∀ {i : Nat} {node : Node}, s.table.get? i = some node → ∀ h ∈ node.operands, s.Has h

theorem Grounded.trees_eq {s : Store} (grounded : s.Grounded) {i : Nat} {node : Node}
    (stored : s.table.get? i = some node) : s.trees i = node.tree? s.trees := by
  cases i with
  | zero => cases stored
  | succ i =>
    have at_i : s.table.values.toList[i]? = some node := by simpa [UniqueTable.get?] using stored
    obtain ⟨inside, value⟩ := List.getElem?_eq_some_iff.mp at_i
    have split : s.table.values.toList
        = s.table.values.toList.take i ++ node :: s.table.values.toList.drop (i + 1) := by
      rw [← value, ← List.drop_eq_getElem_cons inside, List.take_append_drop]
    have length : (s.table.values.toList.take i).length = i := by
      rw [List.length_take]; omega
    have here := treeAt?_snoc (s.table.values.toList.take i) node
      (s.table.values.toList.drop (i + 1))
    rw [← split, length] at here
    rw [trees, here]
    -- The operands come before the node, where more nodes at the end make no difference.
    apply Node.tree?_congr
    intro h member
    have before := grounded.earlier stored h member
    have inside : h.index ≤ (s.table.values.toList.take i).length := by omega
    have same := @treeAt?_append _ (node :: s.table.values.toList.drop (i + 1)) _ inside
    rw [← split] at same
    exact same.symm

/-! ## What the trees are like -/

/-- Number of rule applications in a node, given those in its operands. -/
def applications (count : Handle → Nat) (node : Node) : Nat :=
  node.operands.foldr (fun h n => count h + n) 1

theorem applications_of_tree? {node : Node} {f : Nat → Option Expr} {t : Expr}
    {count : Handle → Nat} (tree : node.tree? f = some t)
    (counts : ∀ h ∈ node.operands, ∀ x, f h.index = some x → count h = x.complexity) :
    applications count node = t.complexity := by
  cases node with
  | leaf l => rw [Node.tree?_leaf.mp tree]; rfl
  | unary op a =>
    obtain ⟨x, hx, rfl⟩ := Node.tree?_unary.mp tree
    have first := counts _ (Node.operand_mem op a) x hx
    simp only [applications, Node.operands, List.foldr, first, Expr.complexity]
    omega
  | binary op a b =>
    obtain ⟨x, y, hx, hy, rfl⟩ := Node.tree?_binary.mp tree
    have left := counts _ (Node.left_mem op a b) x hx
    have right := counts _ (Node.right_mem op a b) y hy
    simp only [applications, Node.operands, List.foldr, left, right, Expr.complexity]
    omega
  | distance a r b =>
    obtain ⟨x, y, z, hx, hy, hz, rfl⟩ := Node.tree?_distance.mp tree
    have source := counts _ (Node.source_mem a r b) x hx
    have role := counts _ (Node.role_mem a r b) y hy
    have target := counts _ (Node.target_mem a r b) z hz
    simp only [applications, Node.operands, List.foldr, source, role, target, Expr.complexity]
    omega

theorem wellKinded_of_tree? {node : Node} {f : Nat → Option Expr} {t : Expr}
    (tree : node.tree? f = some t)
    (operands : ∀ h ∈ node.operands, ∀ x, f h.index = some x → x.kind = h.kind ∧ x.WellKinded) :
    t.WellKinded := by
  cases node with
  | leaf l => rw [Node.tree?_leaf.mp tree]; trivial
  | unary op a =>
    obtain ⟨x, hx, rfl⟩ := Node.tree?_unary.mp tree
    exact operands _ (Node.operand_mem op a) x hx
  | binary op a b =>
    obtain ⟨x, y, hx, hy, rfl⟩ := Node.tree?_binary.mp tree
    have left := operands _ (Node.left_mem op a b) x hx
    have right := operands _ (Node.right_mem op a b) y hy
    exact ⟨left.1, right.1, left.2, right.2⟩
  | distance a r b =>
    obtain ⟨x, y, z, hx, hy, hz, rfl⟩ := Node.tree?_distance.mp tree
    have source := operands _ (Node.source_mem a r b) x hx
    have role := operands _ (Node.role_mem a r b) y hy
    have target := operands _ (Node.target_mem a r b) z hz
    exact ⟨source.1, role.1, target.1, source.2, role.2, target.2⟩

/-- Every expression of a grounded store has a tree, of its kind and with operands
of the kinds that the operators take. -/
theorem Grounded.exists_tree {s : Store} (grounded : s.Grounded) {h : Handle} (has : s.Has h) :
    ∃ t, s.tree? h = some t ∧ t.kind = h.kind ∧ t.WellKinded := by
  obtain ⟨k, i⟩ := h
  induction i using Nat.strongRecOn generalizing k with
  | ind i ih =>
    obtain ⟨node, stored, kind⟩ := has
    have operands : ∀ h ∈ node.operands,
        ∃ t, s.trees h.index = some t ∧ t.kind = h.kind ∧ t.WellKinded := by
      intro h member
      exact ih h.index (grounded.earlier stored h member) h.kind (grounded.has stored h member)
    obtain ⟨t, tree⟩ := Node.exists_tree? fun h member =>
      let ⟨t, found, _⟩ := operands h member
      ⟨t, found⟩
    refine ⟨t, (grounded.trees_eq stored).trans tree, ?_, ?_⟩
    · rw [Expr.kind, Node.rule_of_tree? tree]
      exact kind
    · refine wellKinded_of_tree? tree ?_
      intro h member x found
      obtain ⟨y, hy, kindY, wellY⟩ := operands h member
      cases found.symm.trans hy
      exact ⟨kindY, wellY⟩

theorem Grounded.kind_eq {s : Store} (grounded : s.Grounded) {h : Handle} {t : Expr}
    (has : s.Has h) (tree : s.tree? h = some t) : t.kind = h.kind := by
  obtain ⟨u, found, kind, _⟩ := grounded.exists_tree has
  cases tree.symm.trans found
  exact kind

/-! ## The order of stored expressions -/

theorem Has.node {s : Store} {h : Handle} (has : s.Has h) : ∃ node, s.node? h = some node := by
  obtain ⟨node, stored, _⟩ := has
  exact ⟨node, stored⟩

/-- The order by way of the store is the order of the trees, as long as there is
fuel for the operands. -/
theorem Grounded.orderBelow_eq {s : Store} (grounded : s.Grounded) {fuel : Nat} {a b : Handle}
    {x y : Expr} (fueled : a.index < fuel) (hasA : s.Has a) (hasB : s.Has b)
    (treeA : s.tree? a = some x) (treeB : s.tree? b = some y) :
    s.orderBelow fuel a b = x.order y := by
  -- Only the fuel for the first tree counts, since both are gone through in step.
  induction fuel generalizing a b x y with
  | zero => omega
  | succ fuel ih =>
    by_cases same : a = b
    · subst same
      cases treeA.symm.trans treeB
      simp [orderBelow, Expr.order_self]
    · obtain ⟨m, storedA⟩ := hasA.node
      obtain ⟨n, storedB⟩ := hasB.node
      have spellA : m.tree? s.trees = some x := (grounded.trees_eq storedA).symm.trans treeA
      have spellB : n.tree? s.trees = some y := (grounded.trees_eq storedB).symm.trans treeB
      have roots : (compare m.rule n.rule).then (compareSymbols m.symbols n.symbols)
          = x.compareRoots y := by
        rw [Expr.compareRoots, Node.rule_of_tree? spellA, Node.rule_of_tree? spellB,
          Node.symbols_of_tree? spellA, Node.symbols_of_tree? spellB]
      -- Operands are compared by their trees, and their kinds are those of the trees.
      have operand : ∀ h ∈ m.operands, ∀ h' ∈ n.operands, ∀ u v, s.trees h.index = some u →
          s.trees h'.index = some v →
          (compare h.kind h'.kind).then (s.orderBelow fuel h h')
            = (compare u.kind v.kind).then (u.order v) := by
        intro h memberA h' memberB u v treeU treeV
        have hasU := grounded.has storedA h memberA
        have hasV := grounded.has storedB h' memberB
        have earlier := grounded.earlier storedA h memberA
        rw [ih (by omega) hasU hasV treeU treeV, grounded.kind_eq hasU treeU,
          grounded.kind_eq hasV treeV]
      simp only [orderBelow, same, if_false, storedA, storedB, roots]
      by_cases tied : x.compareRoots y = .eq
      · -- Nodes of one rule have the same number of operands.
        rw [tied, Ordering.eq_then]
        have shape : m.operands.length = n.operands.length := by
          rw [Node.length_operands, Node.length_operands, ← Node.rule_of_tree? spellA,
            ← Node.rule_of_tree? spellB, (Expr.compareRoots_eq_iff.mp tied).1]
        cases m with
        | leaf l =>
          cases n <;> simp [Node.operands] at shape
          cases Node.tree?_leaf.mp spellA
          cases Node.tree?_leaf.mp spellB
          exact tied.symm
        | unary op c =>
          cases n <;> simp [Node.operands] at shape
          obtain ⟨u, hu, rfl⟩ := Node.tree?_unary.mp spellA
          obtain ⟨v, hv, rfl⟩ := Node.tree?_unary.mp spellB
          have first := operand _ (Node.operand_mem ..) _ (Node.operand_mem ..) u v hu hv
          simp only [Node.operands, compareOperands, Expr.order, tied, Ordering.eq_then,
            Ordering.then_eq]
          exact first
        | binary op c d =>
          cases n <;> simp [Node.operands] at shape
          obtain ⟨u, u', hu, hu', rfl⟩ := Node.tree?_binary.mp spellA
          obtain ⟨v, v', hv, hv', rfl⟩ := Node.tree?_binary.mp spellB
          have left := operand _ (Node.left_mem ..) _ (Node.left_mem ..) u v hu hv
          have right := operand _ (Node.right_mem ..) _ (Node.right_mem ..) u' v' hu' hv'
          simp only [Node.operands, compareOperands, Expr.order, tied, Ordering.eq_then,
            Ordering.then_eq]
          rw [left, right]
        | distance c r d =>
          cases n <;> simp [Node.operands] at shape
          obtain ⟨u, u', u'', hu, hu', hu'', rfl⟩ := Node.tree?_distance.mp spellA
          obtain ⟨v, v', v'', hv, hv', hv'', rfl⟩ := Node.tree?_distance.mp spellB
          have source := operand _ (Node.source_mem ..) _ (Node.source_mem ..) u v hu hv
          have role := operand _ (Node.role_mem ..) _ (Node.role_mem ..) u' v' hu' hv'
          have target := operand _ (Node.target_mem ..) _ (Node.target_mem ..) u'' v'' hu'' hv''
          simp only [Node.operands, compareOperands, Expr.order, tied, Ordering.eq_then,
            Ordering.then_eq]
          rw [source, role, target]
      · rw [Expr.order_of_roots tied]
        revert tied
        generalize x.compareRoots y = o
        cases o <;> simp

end Store
end PlanFeatures
