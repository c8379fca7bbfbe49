import PlanFeatures.Proofs.Store.Building

/-!
# Expressions that a store knows

A store knows an expression when it has a handle with that tree.  It then knows all that
the expression is made of, and adding the expression again, in whatever order of operands,
gives that handle and leaves the store as it was.
-/

namespace PlanFeatures.Store

/-- Some handle of the store has the tree. -/
def Knows (s : Store) (t : Expr) : Prop := ∃ h, s.Has h ∧ s.tree? h = some t

variable {s s' : Store}

theorem Knows.grown {t : Expr} (known : s.Knows t) (grown : s.Extends s') : s'.Knows t := by
  obtain ⟨h, has, tree⟩ := known
  exact ⟨h, grown.has has, (grown.tree? has).trans tree⟩

theorem Represents.knows {h : Handle} {t : Expr} (stands : s.Represents h t) (has : s.Has h) :
    s.Knows t :=
  ⟨h, has, stands.tree⟩

/-! ## Operands -/

theorem Grounded.knows_unary (grounded : s.Grounded) {op : UnaryOp} {x : Expr}
    (known : s.Knows (.unary op x)) : s.Knows x := by
  obtain ⟨h, ⟨node, stored, _⟩, tree⟩ := known
  obtain ⟨a, rfl, found⟩ := Node.of_tree?_unary ((grounded.trees_eq stored).symm.trans tree)
  exact ⟨_, grounded.has stored _ (Node.operand_mem op a), found⟩

theorem Grounded.knows_binary (grounded : s.Grounded) {op : BinaryOp} {x y : Expr}
    (known : s.Knows (.binary op x y)) : s.Knows x ∧ s.Knows y := by
  obtain ⟨h, ⟨node, stored, _⟩, tree⟩ := known
  obtain ⟨a, b, rfl, left, right⟩ :=
    Node.of_tree?_binary ((grounded.trees_eq stored).symm.trans tree)
  exact ⟨⟨_, grounded.has stored _ (Node.left_mem op a b), left⟩,
    _, grounded.has stored _ (Node.right_mem op a b), right⟩

theorem Grounded.knows_distance (grounded : s.Grounded) {x y z : Expr}
    (known : s.Knows (.distance x y z)) : s.Knows x ∧ s.Knows y ∧ s.Knows z := by
  obtain ⟨h, ⟨node, stored, _⟩, tree⟩ := known
  obtain ⟨a, r, b, rfl, source, role, target⟩ :=
    Node.of_tree?_distance ((grounded.trees_eq stored).symm.trans tree)
  exact ⟨⟨_, grounded.has stored _ (Node.source_mem a r b), source⟩,
    ⟨_, grounded.has stored _ (Node.role_mem a r b), role⟩,
    _, grounded.has stored _ (Node.target_mem a r b), target⟩

/-! ## Adding expressions -/

/-- What is alike an expression of the store is that expression, and is not added. -/
theorem WellFormed.insert_known (wf : s.WellFormed) {node : Node}
    (operands : ∀ h ∈ node.operands, s.Has h) (declared : node.Declared s.vocabulary) {t u : Expr}
    (tree : node.tree? s.trees = some t) {h : Handle} (has : s.Has h) (known : s.tree? h = some u)
    (alike : Expr.Alike u t) : s.insert node = (h, s) := by
  have added := wf.insert operands declared
  obtain ⟨x, stands, alike'⟩ := added.represents operands tree
  -- The handle that is given stands for the same normal tree, so it is the known one.
  have stands' : (s.insert node).2.Represents h u := by
    obtain ⟨v, before⟩ := wf.represents has
    cases before.tree.symm.trans known
    exact added.grown.represents has before
  have normal : x = u := (alike'.trans alike.symm).eq_of_normal stands.formed.wellKinded
    stands'.formed.wellKinded stands.normal stands'.normal
  have same : (s.insert node).1 = h :=
    added.wellFormed.eq_of_tree added.has (added.grown.has has) (normal ▸ stands.tree) stands'.tree
  rcases insert_cases wf.table node with ⟨i, _, result⟩ | ⟨_, result, _⟩
  · rw [result] at same ⊢
    rw [← same]
  · -- A new handle is behind all that were there.
    rw [result] at same
    have bound := has.bound.2
    rw [← same] at bound
    exact absurd bound (Nat.not_succ_le_self _)

/-- What building a given tree leaves behind. -/
structure Given (s : Store) (t : Expr) (h : Handle) (s' : Store) : Prop where
  later : s.Later s'
  has : s'.Has h
  stands : s'.Represents h t
  known : s.Knows t → s' = s

/-- What was built before changed nothing if the tree was known. -/
theorem Given.after {s₁ : Store} {t : Expr} {h : Handle} (later : s.Later s₁)
    (settled : s.Knows t → s₁ = s) (given : s₁.Given t h s') : s.Given t h s' where
  later := later.trans given.later
  has := given.has
  stands := given.stands
  known known := (given.known (known.grown later.grown)).trans (settled known)

theorem WellFormed.insert_given (wf : s.WellFormed) {node : Node}
    (operands : ∀ h ∈ node.operands, s.Has h) (declared : node.Declared s.vocabulary) {t : Expr}
    (tree : node.tree? s.trees = some t) (formed : t.WellKinded) (normal : t.Normal) :
    s.Given t (s.insert node).1 (s.insert node).2 := by
  have added := wf.insert operands declared
  obtain ⟨x, stands, alike⟩ := added.represents operands tree
  have same : x = t := alike.eq_of_normal stands.formed.wellKinded formed stands.normal normal
  refine ⟨added.later, added.has, same ▸ stands, ?_⟩
  rintro ⟨h, has, known⟩
  rw [wf.insert_known operands declared tree has known (.refl t)]

end PlanFeatures.Store
