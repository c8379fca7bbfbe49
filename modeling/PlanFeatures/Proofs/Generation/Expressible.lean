import PlanFeatures.Generation.Config
import PlanFeatures.Generation.Frontier
import PlanFeatures.Proofs.Sample.Vectors

/-!
# Expressions that a configuration allows

A configuration allows an expression when the rules applied in it are on and none
of its parts is more complex than the limit for it.  Some operators are never
applied to one kept expression twice although that would give something else than
the expression itself; an expression has distinct operands over a sample when these
operators are applied to operands with different vectors only.
-/

namespace PlanFeatures

/-- The positions of a role are increasing. -/
def Leaf.Ascending : Leaf → Prop
  | rolePrimitive _ i j => i < j
  | _ => True

/-- The positions are below the number of them that a word of 32 bits counts. -/
def Leaf.Counted (v : Vocabulary) : Leaf → Prop
  | conceptPrimitive p i => ∃ predicate, v.predicate? p = some predicate ∧ i < predicate.positions
  | rolePrimitive p _ j => ∃ predicate, v.predicate? p = some predicate ∧ j < predicate.positions
  | _ => True

/-- The arities can be counted with a word of 32 bits. -/
def Vocabulary.Narrow (v : Vocabulary) : Prop :=
  ∀ p predicate, v.predicate? p = some predicate → predicate.arity < UInt32.size

/-- Whether the operator gives, on equal operands, something that is not the
operand, and is not tried on them. -/
def BinaryOp.needsDistinct : BinaryOp → Bool
  | conceptDiff | conceptEqual | conceptSubset | roleDiff | inclusionConcept
  | inclusionRole => true
  | _ => false

namespace Expr

/-- All rules applied in the expression are on, no part is more complex than the
limit for its rule, and the positions of roles are increasing. -/
structure Expressible (limits : Limits) (rules : RuleSet) (e : Expr) : Prop where
  enabled : ∀ x ∈ e.parts, rules.isEnabled x.rule = true
  within : ∀ x ∈ e.parts, x.complexity ≤ limits.forRule x.rule
  ascending : ∀ l, leaf l ∈ e.parts → l.Ascending

/-- All positions in the expression are below the number of them that a word counts. -/
def Counted (v : Vocabulary) (e : Expr) : Prop := ∀ l, leaf l ∈ e.parts → l.Counted v

/-- Operands that have to be distinct have different vectors over the sample. -/
def Distinct (states : List State) (e : Expr) : Prop :=
  ∀ op a b, binary op a b ∈ e.parts → op.needsDistinct = true →
    a.vector states ≠ b.vector states

/-! ## Parts -/

theorem parts_trans {x y e : Expr} (inner : x ∈ y.parts) (outer : y ∈ e.parts) : x ∈ e.parts := by
  induction e with
  | leaf l =>
    rw [parts, List.mem_singleton] at outer
    exact outer ▸ inner
  | unary op a iha =>
    rcases List.mem_cons.mp outer with rfl | outer
    · exact inner
    · exact List.mem_cons_of_mem _ (iha outer)
  | binary op a b iha ihb =>
    rcases List.mem_cons.mp outer with rfl | outer
    · exact inner
    · refine List.mem_cons_of_mem _ (List.mem_append.mpr ?_)
      exact (List.mem_append.mp outer).imp iha ihb
  | distance a r b iha ihr ihb =>
    rcases List.mem_cons.mp outer with rfl | outer
    · exact inner
    · refine List.mem_cons_of_mem _ (List.mem_append.mpr ?_)
      refine (List.mem_append.mp outer).imp iha fun outer => List.mem_append.mpr ?_
      exact (List.mem_append.mp outer).imp ihr ihb

theorem operand_mem_parts (op : UnaryOp) (a : Expr) : a ∈ (unary op a).parts := by
  simp [parts, self_mem_parts]

theorem left_mem_parts (op : BinaryOp) (a b : Expr) : a ∈ (binary op a b).parts := by
  simp [parts, self_mem_parts]

theorem right_mem_parts (op : BinaryOp) (a b : Expr) : b ∈ (binary op a b).parts := by
  simp [parts, self_mem_parts]

theorem source_mem_parts (a r b : Expr) : a ∈ (distance a r b).parts := by
  simp [parts, self_mem_parts]

theorem role_mem_parts (a r b : Expr) : r ∈ (distance a r b).parts := by
  simp [parts, self_mem_parts]

theorem target_mem_parts (a r b : Expr) : b ∈ (distance a r b).parts := by
  simp [parts, self_mem_parts]

section
variable {limits : Limits} {rules : RuleSet} {states : List State} {e x : Expr}

theorem Expressible.part (expressible : e.Expressible limits rules) (part : x ∈ e.parts) :
    x.Expressible limits rules where
  enabled y member := expressible.enabled y (parts_trans member part)
  within y member := expressible.within y (parts_trans member part)
  ascending l member := expressible.ascending l (parts_trans member part)

theorem Distinct.part (distinct : e.Distinct states) (part : x ∈ e.parts) : x.Distinct states :=
  fun op a b member => distinct op a b (parts_trans member part)

theorem Counted.part {v : Vocabulary} (counted : e.Counted v) (part : x ∈ e.parts) :
    x.Counted v :=
  fun l member => counted l (parts_trans member part)

theorem Expressible.root (expressible : e.Expressible limits rules) :
    rules.isEnabled e.rule = true ∧ e.complexity ≤ limits.forRule e.rule :=
  ⟨expressible.enabled e (self_mem_parts e), expressible.within e (self_mem_parts e)⟩

end

theorem Over.part {v : Vocabulary} {e x : Expr} (formed : e.Over v) (part : x ∈ e.parts) :
    x.Over v := by
  induction e with
  | leaf l =>
    rw [List.mem_singleton.mp part]
    exact formed
  | unary op a iha =>
    rcases List.mem_cons.mp part with rfl | part
    · exact formed
    · exact iha formed.unary part
  | binary op a b iha ihb =>
    rcases List.mem_cons.mp part with rfl | part
    · exact formed
    · exact (List.mem_append.mp part).elim (iha formed.binary.1) (ihb formed.binary.2)
  | distance a r b iha ihr ihb =>
    rcases List.mem_cons.mp part with rfl | part
    · exact formed
    · refine (List.mem_append.mp part).elim (iha formed.distance.1) fun part => ?_
      exact (List.mem_append.mp part).elim (ihr formed.distance.2.1) (ihb formed.distance.2.2)

theorem Over.leaf_declared {v : Vocabulary} {e : Expr} (formed : e.Over v) {l : Leaf}
    (part : leaf l ∈ e.parts) : l.Declared v :=
  (formed.part part).declared

/-- Where a word counts all positions, every expression has positions that it counts. -/
theorem Over.counted {v : Vocabulary} {e : Expr} (formed : e.Over v) (narrow : v.Narrow) :
    e.Counted v := by
  intro l part
  have declared := formed.leaf_declared part
  cases l with
  | conceptPrimitive p i =>
    obtain ⟨predicate, known, inside⟩ := declared
    exact ⟨predicate, known, (Predicate.positions_eq (narrow p predicate known)).symm ▸ inside⟩
  | rolePrimitive p i j =>
    obtain ⟨predicate, known, _, inside⟩ := declared
    exact ⟨predicate, known, (Predicate.positions_eq (narrow p predicate known)).symm ▸ inside⟩
  | _ => trivial

/-! ## Alike expressions -/

theorem Alike.exists_part {a b : Expr} (alike : Alike a b) {y : Expr} (part : y ∈ b.parts) :
    ∃ x ∈ a.parts, Alike x y := by
  induction alike with
  | leaf l =>
    rw [List.mem_singleton.mp part]
    exact ⟨_, self_mem_parts _, .leaf l⟩
  | unary op alike ih =>
    rcases List.mem_cons.mp part with rfl | part
    · exact ⟨_, self_mem_parts _, .unary op alike⟩
    · obtain ⟨x, inner, same⟩ := ih part
      exact ⟨x, parts_trans inner (operand_mem_parts op _), same⟩
  | binary op left right ihl ihr =>
    rcases List.mem_cons.mp part with rfl | part
    · exact ⟨_, self_mem_parts _, .binary op left right⟩
    · rcases List.mem_append.mp part with part | part
      · obtain ⟨x, inner, same⟩ := ihl part
        exact ⟨x, parts_trans inner (left_mem_parts op _ _), same⟩
      · obtain ⟨x, inner, same⟩ := ihr part
        exact ⟨x, parts_trans inner (right_mem_parts op _ _), same⟩
  | swapped op commutative left right ihl ihr =>
    rcases List.mem_cons.mp part with rfl | part
    · exact ⟨_, self_mem_parts _, .swapped op commutative left right⟩
    · -- A part of the left operand is one of the right operand on the other side.
      rcases List.mem_append.mp part with part | part
      · obtain ⟨x, inner, same⟩ := ihr part
        exact ⟨x, parts_trans inner (right_mem_parts op _ _), same⟩
      · obtain ⟨x, inner, same⟩ := ihl part
        exact ⟨x, parts_trans inner (left_mem_parts op _ _), same⟩
  | distance source role target ihs ihr iht =>
    rcases List.mem_cons.mp part with rfl | part
    · exact ⟨_, self_mem_parts _, .distance source role target⟩
    · rcases List.mem_append.mp part with part | part
      · obtain ⟨x, inner, same⟩ := ihs part
        exact ⟨x, parts_trans inner (source_mem_parts _ _ _), same⟩
      · rcases List.mem_append.mp part with part | part
        · obtain ⟨x, inner, same⟩ := ihr part
          exact ⟨x, parts_trans inner (role_mem_parts _ _ _), same⟩
        · obtain ⟨x, inner, same⟩ := iht part
          exact ⟨x, parts_trans inner (target_mem_parts _ _ _), same⟩

theorem Expressible.alike {limits : Limits} {rules : RuleSet} {a b : Expr}
    (expressible : a.Expressible limits rules) (alike : Alike a b) :
    b.Expressible limits rules where
  enabled y part := by
    obtain ⟨x, inner, same⟩ := alike.exists_part part
    exact same.rule_eq ▸ expressible.enabled x inner
  within y part := by
    obtain ⟨x, inner, same⟩ := alike.exists_part part
    rw [← same.rule_eq, ← same.complexity_eq]
    exact expressible.within x inner
  ascending l part := by
    obtain ⟨x, inner, same⟩ := alike.exists_part part
    cases same
    exact expressible.ascending l inner

theorem Counted.alike {v : Vocabulary} {a b : Expr} (counted : a.Counted v) (alike : Alike a b) :
    b.Counted v := by
  intro l part
  obtain ⟨x, inner, same⟩ := alike.exists_part part
  cases same
  exact counted l inner

theorem Distinct.alike {states : List State} {v : Vocabulary} {a b : Expr}
    (distinct : a.Distinct states) (alike : Alike a b) (sample : ∀ s ∈ states, s.Over v)
    (formed : a.Over v) : b.Distinct states := by
  intro op c d part needed
  obtain ⟨x, inner, same⟩ := alike.exists_part part
  have formedX := formed.part inner
  -- To be distinct does not depend on the order of the operands.
  cases same with
  | binary _ left right =>
    rw [← (left.agree sample formedX.binary.1).vector_eq,
      ← (right.agree sample formedX.binary.2).vector_eq]
    exact distinct op _ _ inner needed
  | swapped _ _ left right =>
    rw [← (left.agree sample formedX.binary.1).vector_eq,
      ← (right.agree sample formedX.binary.2).vector_eq]
    exact (distinct op _ _ inner needed).symm

end Expr

/-! ## Trees of nodes -/

/-- A part of a node's tree is the tree itself or a part of an operand's. -/
theorem Node.part_of_tree? {node : Node} {trees : Nat → Option Expr} {t y : Expr}
    (tree : node.tree? trees = some t) (part : y ∈ t.parts) :
    y = t ∨ ∃ h ∈ node.operands, ∃ x, trees h.index = some x ∧ y ∈ x.parts := by
  cases node with
  | leaf l =>
    cases Node.tree?_leaf.mp tree
    exact Or.inl (List.mem_singleton.mp part)
  | unary op a =>
    obtain ⟨x, hx, rfl⟩ := Node.tree?_unary.mp tree
    rcases List.mem_cons.mp part with root | part
    · exact Or.inl root
    · exact Or.inr ⟨_, Node.operand_mem op a, x, hx, part⟩
  | binary op a b =>
    obtain ⟨x, y, hx, hy, rfl⟩ := Node.tree?_binary.mp tree
    rcases List.mem_cons.mp part with root | part
    · exact Or.inl root
    · rcases List.mem_append.mp part with part | part
      · exact Or.inr ⟨_, Node.left_mem op a b, x, hx, part⟩
      · exact Or.inr ⟨_, Node.right_mem op a b, y, hy, part⟩
  | distance a r b =>
    obtain ⟨x, y, z, hx, hy, hz, rfl⟩ := Node.tree?_distance.mp tree
    rcases List.mem_cons.mp part with root | part
    · exact Or.inl root
    · rcases List.mem_append.mp part with part | part
      · exact Or.inr ⟨_, Node.source_mem a r b, x, hx, part⟩
      · rcases List.mem_append.mp part with part | part
        · exact Or.inr ⟨_, Node.role_mem a r b, y, hy, part⟩
        · exact Or.inr ⟨_, Node.target_mem a r b, z, hz, part⟩

/-- The tree of a node over allowed operands is allowed, if the node's own rule and
complexity are. -/
theorem Node.expressible_of_tree? {node : Node} {trees : Nat → Option Expr} {t : Expr}
    {limits : Limits} {rules : RuleSet} (tree : node.tree? trees = some t)
    (enabled : rules.isEnabled node.rule = true)
    (within : t.complexity ≤ limits.forRule node.rule)
    (ascending : ∀ l, node = .leaf l → l.Ascending)
    (operands : ∀ h ∈ node.operands, ∀ x, trees h.index = some x → x.Expressible limits rules) :
    t.Expressible limits rules where
  enabled y part := by
    rcases Node.part_of_tree? tree part with rfl | ⟨h, operand, x, found, inner⟩
    · rw [Node.rule_of_tree? tree]
      exact enabled
    · exact (operands h operand x found).enabled y inner
  within y part := by
    rcases Node.part_of_tree? tree part with rfl | ⟨h, operand, x, found, inner⟩
    · rw [Node.rule_of_tree? tree]
      exact within
    · exact (operands h operand x found).within y inner
  ascending l part := by
    rcases Node.part_of_tree? tree part with rfl | ⟨h, operand, x, found, inner⟩
    · exact ascending l (Node.of_tree?_leaf tree)
    · exact (operands h operand x found).ascending l inner

theorem Node.counted_of_tree? {node : Node} {trees : Nat → Option Expr} {t : Expr}
    {v : Vocabulary} (tree : node.tree? trees = some t)
    (counted : ∀ l, node = .leaf l → l.Counted v)
    (operands : ∀ h ∈ node.operands, ∀ x, trees h.index = some x → x.Counted v) :
    t.Counted v := by
  intro l part
  rcases Node.part_of_tree? tree part with rfl | ⟨h, operand, x, found, inner⟩
  · exact counted l (Node.of_tree?_leaf tree)
  · exact operands h operand x found l inner

theorem Node.distinct_of_tree? {node : Node} {trees : Nat → Option Expr} {t : Expr}
    {states : List State} (tree : node.tree? trees = some t)
    (root : ∀ op a b x y, node = .binary op a b → trees a = some x → trees b = some y →
      op.needsDistinct = true → x.vector states ≠ y.vector states)
    (operands : ∀ h ∈ node.operands, ∀ x, trees h.index = some x → x.Distinct states) :
    t.Distinct states := by
  intro op x y part needed
  rcases Node.part_of_tree? tree part with rfl | ⟨h, operand, z, found, inner⟩
  · obtain ⟨a, b, rfl, hx, hy⟩ := Node.of_tree?_binary tree
    exact root op a b x y rfl hx hy needed
  · exact operands h operand z found op x y inner needed

/-! ## What a run may keep -/

/-- The configuration allows the expression, a word counts its positions, and operands that have
to be distinct are. -/
structure Expr.Admitted (v : Vocabulary) (config : Config) (states : List State) (e : Expr) :
    Prop where
  expressible : e.Expressible config.limits config.rules
  counted : e.Counted v
  distinct : e.Distinct states

theorem Expr.Admitted.alike {v : Vocabulary} {config : Config} {states : List State} {a b : Expr}
    (admitted : a.Admitted v config states) (alike : Alike a b)
    (sample : ∀ s ∈ states, s.Over v) (formed : a.Over v) : b.Admitted v config states :=
  ⟨admitted.expressible.alike alike, admitted.counted.alike alike,
    admitted.distinct.alike alike sample formed⟩

/-! ## Larger configurations -/

/-- Every limit is at most the corresponding one. -/
structure Limits.Le (l l' : Limits) : Prop where
  concept : l.concept ≤ l'.concept
  role : l.role ≤ l'.role
  boolean : l.boolean ≤ l'.boolean
  count : l.count ≤ l'.count
  distance : l.distance ≤ l'.distance

theorem Limits.Le.forRule {l l' : Limits} (le : l.Le l') (rule : Rule) :
    l.forRule rule ≤ l'.forRule rule := by
  unfold Limits.forRule
  split
  · exact le.concept
  · exact le.role
  · exact le.boolean
  · split
    · exact le.count
    · exact le.distance

theorem Expr.Expressible.mono {limits limits' : Limits} {rules rules' : RuleSet} {e : Expr}
    (expressible : e.Expressible limits rules) (larger : limits.Le limits')
    (more : ∀ rule, rules.isEnabled rule = true → rules'.isEnabled rule = true) :
    e.Expressible limits' rules' where
  enabled x member := more _ (expressible.enabled x member)
  within x member := Nat.le_trans (expressible.within x member) (larger.forRule x.rule)
  ascending := expressible.ascending

end PlanFeatures
