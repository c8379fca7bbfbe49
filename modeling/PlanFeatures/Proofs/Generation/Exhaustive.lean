import PlanFeatures.Proofs.Generation.Deduplication
import PlanFeatures.Proofs.Generation.EqualOperands

/-!
# Completed runs are exhaustive

A completed run keeps, for every expression that the configuration allows, one of its
kind that denotes the same in all states and is not more complex.  The proof goes along
the expression: its operands are represented by kept ones, which are not more complex,
so the rule over the representatives was a candidate of the same or an earlier layer.
Candidates that are left out are those with one representative for both operands: there
the expression denotes what its operand does, or what a smaller expression denotes.
-/

namespace PlanFeatures

/-! ## Limits -/

theorem UnaryOp.isFeature_operand (op : UnaryOp) : op.operand.isFeature = false := by
  cases op <;> rfl

theorem BinaryOp.isFeature_left (op : BinaryOp) : op.left.isFeature = false := by
  cases op <;> rfl

theorem BinaryOp.isFeature_right (op : BinaryOp) : op.right.isFeature = false := by
  cases op <;> rfl

namespace Session

/-- An expression of the kind with the vector has been kept that is not more complex. -/
def Keeps (states : List State) (s : Session) (e : Expr) : Prop :=
  ∃ h vector, (h, vector) ∈ s.representatives.kept ∧ h.kind = e.kind ∧
    e.vector states = .ok vector ∧ s.store.complexity h ≤ e.complexity

/-- A kept concept or role as it is listed in a layer, with its tree. -/
structure Operand (states : List State) (s : Session) (e : Expr) (i a : Nat) (t : Expr) : Prop where
  listed : a ∈ s.frontier.layer e.kind i
  cheap : i ≤ e.complexity
  tree : s.store.trees a = some t
  kept : ∃ vector, (⟨e.kind, a⟩, vector) ∈ s.representatives.kept ∧ e.vector states = .ok vector
  complexity : t.complexity = i
  kind : t.kind = e.kind
  agree : t.Agree states e

variable {base : Store} {states : List State} {config : Config} {k : Nat} {s : Session}
  {a b e : Expr}

theorem Keeps.of_agree {e' : Expr} (keeps : s.Keeps states e') (agree : e'.Agree states e)
    (kind : e'.kind = e.kind) (complexity : e'.complexity ≤ e.complexity) : s.Keeps states e := by
  obtain ⟨h, vector, kept, same, value, bound⟩ := keeps
  exact ⟨h, vector, kept, same.trans kind, agree.vector_eq.symm.trans value,
    Nat.le_trans bound complexity⟩

theorem Covers.keeps {node : Node} {t : Expr} (covers : s.Covers states node)
    (tree : node.tree? s.store.trees = some t) : s.Keeps states t := by
  obtain ⟨u, found, kept⟩ := covers
  cases tree.symm.trans found
  exact kept

section
variable (sound : s.Sound base states config k)
include sound

theorem Sound.exists_operand (keeps : s.Keeps states e) (operand : e.kind.isFeature = false)
    (closed : e.complexity < k) : ∃ i a t, s.Operand states e i a t := by
  obtain ⟨⟨kind, a⟩, vector, kept, same, value, bound⟩ := keeps
  obtain rfl : kind = e.kind := same
  obtain ⟨t, stands, value'⟩ := (sound.representatives.denotes kept).tree
  have complexity := Store.complexity_of_complexity? stands.complexity
  exact ⟨_, a, t, {
    listed := (sound.layered.mem_layer operand (Nat.lt_of_le_of_lt bound closed)).mpr
      ⟨vector, kept, rfl⟩
    cheap := bound
    tree := stands.tree
    kept := ⟨vector, kept, value⟩
    complexity := complexity.symm
    kind := stands.kind
    agree := Expr.agree_of_vector value' value }⟩

theorem Sound.agree_of_same {i j x : Nat} {t u : Expr} (left : s.Operand states a i x t)
    (right : s.Operand states b j x u) (kind : a.kind = b.kind) : a.Agree states b := by
  obtain ⟨v, kept, value⟩ := left.kept
  obtain ⟨w, kept', value'⟩ := right.kept
  rw [kind] at kept
  obtain rfl := sound.representatives.vector_unique kept kept'
  exact Expr.agree_of_vector value value'

end

/-! ## Rules over representatives -/

section
variable (done : s.Done base states config (config.limits.max + 1))
  (formed : e.Over base.vocabulary) (expressible : e.Expressible config.limits config.rules)
include done expressible

/-- A candidate of the rule of an expression, in a layer up to its complexity, is
represented. -/
theorem Done.keeps {node : Node} {t : Expr} {j : Nat} (positive : 0 < j) (cheap : j ≤ e.complexity)
    (member : node ∈ s.frontier.candidates base.vocabulary e.rule j)
    (tree : node.tree? s.store.trees = some t) : s.Keeps states t := by
  obtain ⟨enabled, within⟩ := expressible.root
  have most := config.limits.forRule_le_max e.rule
  exact (done j positive (by omega) e.rule enabled (by omega) node member).keeps tree

include formed

theorem Done.keeps_leaf {l : Leaf} (shape : e = .leaf l) (counted : e.Counted base.vocabulary) :
    s.Keeps states e := by
  subst shape
  have declared : l.Declared base.vocabulary := formed.declared
  have ascending := expressible.ascending l (Expr.self_mem_parts _)
  have within := counted l (Expr.self_mem_parts _)
  have member := Vocabulary.mem_leaves.mpr ⟨rfl, declared, ascending, within⟩
  exact Done.keeps done expressible Nat.one_pos (Nat.le_refl _)
    (Frontier.leaf_mem_candidates.mpr ⟨rfl, member⟩) rfl

theorem Done.keeps_unary {op : UnaryOp} (shape : e = .unary op a) {i x : Nat} {t : Expr}
    (operand : s.Operand states a i x t) : s.Keeps states e := by
  subst shape
  have kind : a.kind = op.operand := formed.wellKinded.1
  have cheap := operand.cheap
  have complexity := operand.complexity
  have member := (Frontier.unary_mem_candidates (v := base.vocabulary) (k := i + 1)).mpr
    ⟨rfl, formed.declared.1, kind ▸ operand.listed⟩
  have tree : (Node.unary op x).tree? s.store.trees = some (.unary op t) :=
    Node.tree?_unary.mpr ⟨t, operand.tree, rfl⟩
  have keeps := Done.keeps done expressible (Nat.succ_pos i)
    (by simp only [Expr.complexity]; omega) member tree
  refine keeps.of_agree (operand.agree.unary op) rfl ?_
  simp only [Expr.complexity]
  omega

theorem Done.keeps_pair {op : BinaryOp} (shape : e = .binary op a b) {i j x y : Nat} {t u : Expr}
    (left : s.Operand states a i x t) (right : s.Operand states b j y u)
    (pair : (x, y) ∈ s.frontier.operandPairs op i j) : s.Keeps states e := by
  subst shape
  have cheapLeft := left.cheap
  have cheapRight := right.cheap
  have complexityLeft := left.complexity
  have complexityRight := right.complexity
  have split := mem_splits.mpr
    ⟨Frontier.pos_of_mem_layer left.listed, Frontier.pos_of_mem_layer right.listed, rfl⟩
  have member := (Frontier.binary_mem_candidates (v := base.vocabulary) (k := i + j + 1)).mpr
    ⟨rfl, i, j, split, pair⟩
  have tree : (Node.binary op x y).tree? s.store.trees = some (.binary op t u) :=
    Node.tree?_binary.mpr ⟨t, u, left.tree, right.tree, rfl⟩
  have keeps := Done.keeps done expressible (Nat.succ_pos (i + j))
    (by simp only [Expr.complexity]; omega) member tree
  refine keeps.of_agree (left.agree.binary right.agree op) rfl ?_
  simp only [Expr.complexity]
  omega

theorem Done.keeps_distance {r : Expr} (shape : e = .distance a r b) {i j l x y z : Nat}
    {t u w : Expr} (source : s.Operand states a i x t) (role : s.Operand states r j y u)
    (target : s.Operand states b l z w) : s.Keeps states e := by
  subst shape
  obtain ⟨kindA, kindR, kindB, _⟩ := formed.wellKinded
  have cheapSource := source.cheap
  have cheapRole := role.cheap
  have cheapTarget := target.cheap
  have complexitySource := source.complexity
  have complexityRole := role.complexity
  have complexityTarget := target.complexity
  have member := (Frontier.distance_mem_candidates (v := base.vocabulary)).mpr
    ⟨rfl, i, j, l, rfl, kindA ▸ source.listed, kindR ▸ role.listed, kindB ▸ target.listed⟩
  have tree : (Node.distance x y z).tree? s.store.trees = some (.distance t u w) :=
    Node.tree?_distance.mpr ⟨t, u, w, source.tree, role.tree, target.tree, rfl⟩
  have keeps := Done.keeps done expressible (Nat.succ_pos (i + (j + l)))
    (by simp only [Expr.complexity]; omega) member tree
  refine keeps.of_agree (source.agree.distance role.agree target.agree) rfl ?_
  simp only [Expr.complexity]
  omega

/-- Different representatives are paired, in the order of the operands or, where that does
not matter, in one of both. -/
theorem Done.keeps_of_ne (sample : ∀ state ∈ states, state.Over base.vocabulary) {op : BinaryOp}
    (shape : e = .binary op a b) {i j x y : Nat} {t u : Expr} (left : s.Operand states a i x t)
    (right : s.Operand states b j y u) (differ : x ≠ y) : s.Keeps states e := by
  subst shape
  obtain ⟨kindA, kindB, wellA, wellB⟩ := formed.wellKinded
  cases commutative : op.rule.isCommutative with
  | false =>
    refine Done.keeps_pair done formed expressible rfl left right ?_
    exact Frontier.operandPairs_of_ordered commutative (kindA ▸ left.listed) (kindB ▸ right.listed)
      fun _ => differ
  | true =>
    rcases Frontier.operandPairs_of_commutative commutative (kindA ▸ left.listed)
      (kindB ▸ right.listed) differ with pair | pair
    · exact Done.keeps_pair done formed expressible rfl left right pair
    · -- The pair stands for the expression with its operands swapped.
      have same := BinaryOp.left_eq_right commutative
      have alike : Expr.Alike (.binary op a b) (.binary op b a) :=
        .swapped op commutative (.refl a) (.refl b)
      have swapped : (Expr.binary op b a).Over base.vocabulary :=
        ⟨⟨same ▸ kindB, same ▸ kindA, wellB, wellA⟩, formed.declared.2, formed.declared.1⟩
      have keeps := Done.keeps_pair done swapped (expressible.alike alike) rfl right left pair
      exact keeps.of_agree (alike.agree sample formed).symm rfl
        (Nat.le_of_eq alike.complexity_eq.symm)

end

/-! ## Equal operands -/

theorem onEqual_over (op : BinaryOp) (v : Vocabulary) : op.onEqual.Over v := by
  cases op <;> exact ⟨by simp [BinaryOp.onEqual, Expr.WellKinded, Expr.kind, Expr.rule, Leaf.rule,
    Rule.kind, UnaryOp.operand], by simp [BinaryOp.onEqual, Expr.Declared, Leaf.Declared,
    UnaryOp.Declared]⟩

/-- When all rules are on, what an allowed expression denotes on equal operands is allowed. -/
theorem onEqual_expressible {op : BinaryOp} (all : ∀ rule, config.rules.isEnabled rule = true)
    (positive : 0 < config.limits.concept) (needed : op.needsDistinct = true)
    (within : 3 ≤ config.limits.forRule op.rule) :
    op.onEqual.Expressible config.limits config.rules where
  enabled x _ := all x.rule
  within x part := by
    -- A unary application of a leaf at most, which is within a limit of at least three.
    cases op <;> simp only [BinaryOp.needsDistinct, Bool.false_eq_true] at needed <;>
      simp only [BinaryOp.onEqual, Expr.parts, List.mem_cons, List.not_mem_nil,
        or_false] at part <;>
      simp only [BinaryOp.rule, Limits.forRule, Rule.kind] at within
    case roleDiff | inclusionConcept | inclusionRole =>
      rcases part with rfl | rfl <;>
        simp only [Expr.complexity, Expr.rule, UnaryOp.rule, Leaf.rule, Limits.forRule,
          Rule.kind] <;> omega
    all_goals
      subst part
      simp only [Expr.complexity, Expr.rule, Leaf.rule, Limits.forRule, Rule.kind]
      omega
  ascending l part := by
    cases op <;> simp only [BinaryOp.onEqual, Expr.parts, List.mem_cons, List.not_mem_nil, or_false,
      Expr.leaf.injEq, reduceCtorEq, false_or] at part <;> subst part <;> trivial

/-- The leaves of what is denoted on equal operands have no positions. -/
theorem onEqual_counted (op : BinaryOp) (v : Vocabulary) : op.onEqual.Counted v := by
  intro l part
  cases op <;> simp only [BinaryOp.onEqual, Expr.parts, List.mem_cons, List.not_mem_nil, or_false,
    Expr.leaf.injEq, reduceCtorEq, false_or] at part <;> subst part <;> trivial

theorem Sound.keeps_onEqual (sound : s.Sound base states config (config.limits.max + 1))
    (done : s.Done base states config (config.limits.max + 1)) {op : BinaryOp}
    (expressible : op.onEqual.Expressible config.limits config.rules) :
    s.Keeps states op.onEqual := by
  have formed := onEqual_over op base.vocabulary
  have counted := onEqual_counted op base.vocabulary
  generalize shape : op.onEqual = e at formed counted expressible
  cases e with
  | leaf l => exact Done.keeps_leaf done formed expressible rfl counted
  | unary op' a =>
    have inner := expressible.part (Expr.operand_mem_parts op' a)
    have closed : a.complexity < config.limits.max + 1 := by
      have within := inner.root.2
      have most := config.limits.forRule_le_max a.rule
      omega
    have kind : a.kind.isFeature = false := formed.wellKinded.1 ▸ op'.isFeature_operand
    obtain ⟨l, rfl⟩ : ∃ l, a = .leaf l := by
      cases op <;> simp only [BinaryOp.onEqual, Expr.unary.injEq, reduceCtorEq] at shape <;>
        exact ⟨_, shape.2.symm⟩
    have keeps := Done.keeps_leaf done formed.unary inner rfl
      (counted.part (Expr.operand_mem_parts op' _))
    obtain ⟨i, x, t, operand⟩ := sound.exists_operand keeps kind closed
    exact Done.keeps_unary done formed expressible rfl operand
  | binary op' a b => cases op <;> cases shape
  | distance a r b => cases op <;> cases shape

/-- The operators on two operands of one kind that are not applied to one expression
twice. -/
theorem BinaryOp.left_eq_right_of_special {op : BinaryOp}
    (special : (op.rule.isCommutative || op.needsDistinct) = true) : op.left = op.right := by
  revert special
  cases op <;> decide

/-- A candidate that is left out since its operands have one representative denotes what the
operand does, or what a smaller expression denotes. -/
theorem Sound.keeps_of_equal (sound : s.Sound base states config (config.limits.max + 1))
    (done : s.Done base states config (config.limits.max + 1))
    (sample : ∀ state ∈ states, state.Over base.vocabulary) (positive : 0 < config.limits.concept)
    {op : BinaryOp} (formed : (Expr.binary op a b).Over base.vocabulary)
    (expressible : (Expr.binary op a b).Expressible config.limits config.rules)
    (choice : (∀ rule, config.rules.isEnabled rule = true) ∨ (Expr.binary op a b).Distinct states)
    (keeps : s.Keeps states a) (agree : a.Agree states b)
    (special : (op.rule.isCommutative || op.needsDistinct) = true) :
    s.Keeps states (.binary op a b) := by
  have three : 3 ≤ (Expr.binary op a b).complexity := by
    have := a.complexity_pos
    have := b.complexity_pos
    simp only [Expr.complexity]
    omega
  cases needed : op.needsDistinct with
  | true =>
    -- The operands agree, so they are not distinct and all rules are on.
    have all := choice.resolve_right fun distinct =>
      distinct op a b (Expr.self_mem_parts _) needed agree.vector_eq
    have allowed := onEqual_expressible all positive needed
      (Nat.le_trans three expressible.root.2)
    refine (sound.keeps_onEqual done allowed).of_agree
      (Expr.onEqual_agree sample formed agree needed) ?_ ?_
    · exact BinaryOp.kind_onEqual needed
    · exact Nat.le_trans op.complexity_onEqual_le three
  | false =>
    rw [needed, Bool.or_false] at special
    refine keeps.of_agree (Expr.binary_agree_self sample formed agree special needed) ?_ ?_
    · exact formed.wellKinded.1.trans (BinaryOp.left_eq_kind special needed)
    · simp only [Expr.complexity]
      omega

/-! ## All allowed expressions -/

/-- A completed run has kept something for every allowed expression.  Either all rules are
on or the operands that have to be distinct are. -/
theorem Sound.keeps_of_expressible (sound : s.Sound base states config (config.limits.max + 1))
    (done : s.Done base states config (config.limits.max + 1))
    (sample : ∀ state ∈ states, state.Over base.vocabulary) (positive : 0 < config.limits.concept)
    (formed : e.Over base.vocabulary) (counted : e.Counted base.vocabulary)
    (expressible : e.Expressible config.limits config.rules)
    (choice : (∀ rule, config.rules.isEnabled rule = true) ∨ e.Distinct states) :
    s.Keeps states e := by
  -- The layers of all parts are closed, so representatives are listed as operands.
  have closed : ∀ {x : Expr}, x.Expressible config.limits config.rules →
      x.complexity < config.limits.max + 1 := by
    intro x allowed
    have within := allowed.root.2
    have most := config.limits.forRule_le_max x.rule
    omega
  induction e with
  | leaf l => exact Done.keeps_leaf done formed expressible rfl counted
  | unary op a iha =>
    have part := Expr.operand_mem_parts op a
    have inner := expressible.part part
    have keeps := iha formed.unary (counted.part part) inner (choice.imp id fun distinct => distinct.part part)
    have kind : a.kind.isFeature = false := formed.wellKinded.1 ▸ op.isFeature_operand
    obtain ⟨i, x, t, operand⟩ := sound.exists_operand keeps kind (closed inner)
    exact Done.keeps_unary done formed expressible rfl operand
  | binary op a b iha ihb =>
    have partA := Expr.left_mem_parts op a b
    have partB := Expr.right_mem_parts op a b
    have innerA := expressible.part partA
    have innerB := expressible.part partB
    have keepsA := iha formed.binary.1 (counted.part partA) innerA
      (choice.imp id fun distinct => distinct.part partA)
    have keepsB := ihb formed.binary.2 (counted.part partB) innerB
      (choice.imp id fun distinct => distinct.part partB)
    obtain ⟨kindA, kindB, _⟩ := formed.wellKinded
    obtain ⟨i, x, t, left⟩ :=
      sound.exists_operand keepsA (kindA ▸ op.isFeature_left) (closed innerA)
    obtain ⟨j, y, u, right⟩ :=
      sound.exists_operand keepsB (kindB ▸ op.isFeature_right) (closed innerB)
    by_cases differ : x = y
    · subst differ
      cases special : op.rule.isCommutative || op.needsDistinct with
      | true =>
        have kinds : a.kind = b.kind :=
          kindA.trans ((BinaryOp.left_eq_right_of_special special).trans kindB.symm)
        have agree := sound.agree_of_same left right kinds
        exact sound.keeps_of_equal done sample positive formed expressible choice keepsA agree
          special
      | false =>
        -- The other operators are tried on equal operands as well.
        obtain ⟨ordered, other⟩ := Bool.or_eq_false_iff.mp special
        refine Done.keeps_pair done formed expressible rfl left right ?_
        exact Frontier.operandPairs_of_ordered ordered (kindA ▸ left.listed) (kindB ▸ right.listed)
          fun impossible => by rw [other] at impossible; cases impossible
    · exact Done.keeps_of_ne done formed expressible sample rfl left right differ
  | distance a r b iha ihr ihb =>
    have partA := Expr.source_mem_parts a r b
    have partR := Expr.role_mem_parts a r b
    have partB := Expr.target_mem_parts a r b
    have innerA := expressible.part partA
    have innerR := expressible.part partR
    have innerB := expressible.part partB
    have keepsA := iha formed.distance.1 (counted.part partA) innerA
      (choice.imp id fun distinct => distinct.part partA)
    have keepsR := ihr formed.distance.2.1 (counted.part partR) innerR
      (choice.imp id fun distinct => distinct.part partR)
    have keepsB := ihb formed.distance.2.2 (counted.part partB) innerB
      (choice.imp id fun distinct => distinct.part partB)
    obtain ⟨kindA, kindR, kindB, _⟩ := formed.wellKinded
    obtain ⟨i, x, t, source⟩ := sound.exists_operand keepsA (by rw [kindA]; rfl) (closed innerA)
    obtain ⟨j, y, u, role⟩ := sound.exists_operand keepsR (by rw [kindR]; rfl) (closed innerR)
    obtain ⟨l, z, w, target⟩ := sound.exists_operand keepsB (by rw [kindB]; rfl) (closed innerB)
    exact Done.keeps_distance done formed expressible rfl source role target

end Session

theorem Config.concept_pos {config : Config} (valid : config.validate = .ok ()) :
    0 < config.limits.concept :=
  (Config.forRule_bounds valid .conceptTop).1

/-- A completed run keeps, for every expression over the vocabulary that the configuration
allows, one of its kind that evaluates in every state of the sample to what the expression
denotes, and is not more complex.  If the expression is a boolean or a numerical, what is
kept is a feature.  Operators that are not tried on equal operands must have operands with
different vectors, unless all rules are on.  The arities of the vocabulary must be counted
with words of 32 bits, since a run goes through the positions with such a word. -/
theorem completed_run_exhaustive {store : Store} {issued : List Handle}
    (reachable : store.Reachable issued) (narrow : store.vocabulary.Narrow) {config : Config}
    {clock : Clock} {states : List State}
    (made : ∀ state ∈ states, state.problem.Made) {g : Generation} {store' : Store}
    (run : generate config clock states store = (.ok g, store')) (completed : g.status = .completed)
    {e : Expr} (formed : e.Over store.vocabulary)
    (expressible : e.Expressible config.limits config.rules)
    (choice : (∀ rule, config.rules.isEnabled rule = true) ∨ e.Distinct states) :
    ∃ h vector, (h, vector) ∈ (Session.after config clock states store).representatives.kept ∧
      h.kind = e.kind ∧ e.vector states = .ok vector ∧
      (∀ state ∈ states, store'.evaluate h state = e.denote state) ∧
      (∃ n, store'.complexity? h = some n ∧ n ≤ e.complexity) ∧
      (e.kind.isFeature = true → ∃ f ∈ g.features, f.handle = h) := by
  obtain ⟨valid, accepted, rfl, features, finished⟩ :=
    generated_of_eq reachable.wellFormed made run
  obtain ⟨sound, done⟩ := finished completed
  have over_states := over_of_checkSample accepted made
  obtain ⟨h, vector, kept, kind, value, bound⟩ := sound.keeps_of_expressible done over_states
    (Config.concept_pos valid) formed (formed.counted narrow) expressible choice
  obtain ⟨t, stands, value'⟩ := (sound.representatives.denotes kept).tree
  refine ⟨h, vector, kept, kind, value, ?_, ⟨t.complexity, stands.complexity, ?_⟩, ?_⟩
  · intro state member
    have over_state := over_states state member
    rw [← sound.vocabulary] at over_state
    rw [sound.wellFormed.evaluate_eq over_state (sound.has_kept kept) stands]
    exact Expr.agree_of_vector value' value state member
  · rw [← Store.complexity_of_complexity? stands.complexity]
    exact bound
  · intro feature
    obtain ⟨f, member, same⟩ := sound.emitted.mem.mpr ⟨kind ▸ feature, vector, kept⟩
    exact ⟨f, features ▸ Array.mem_toList_iff.mpr member, same⟩

theorem Lamps.narrow : Lamps.store.vocabulary.Narrow := by
  intro p predicate known
  obtain ⟨_ | i⟩ := p
  · cases known
    decide
  · cases known

/-- Whether all lamps are lit: a feature that is not more complex has the same values. -/
theorem completed_run_exhaustive_lamps :
    ∃ g store', generate Lamps.boolean Lamps.clock Lamps.states Lamps.store = (.ok g, store') ∧
      ∃ f ∈ g.features, ∃ n, store'.complexity? f.handle = some n ∧ n ≤ 3 ∧
        ∀ state ∈ Lamps.states, store'.evaluate f.handle state
          = (Expr.unary .emptyConcept (.unary .conceptNot
              (.leaf (.conceptPrimitive ⟨0⟩ 0)))).denote state := by
  have found : (generate Lamps.boolean Lamps.clock Lamps.states Lamps.store).1.toOption.map
      Generation.status = some .completed := by decide +kernel
  obtain ⟨g, store', run, completed⟩ := exists_generate found
  refine ⟨g, store', run, ?_⟩
  obtain ⟨h, vector, _, _, _, same, ⟨n, complexity, bound⟩, feature⟩ :=
    completed_run_exhaustive Lamps.store_reachable Lamps.narrow Lamps.states_made run completed
      (e := .unary .emptyConcept (.unary .conceptNot (.leaf (.conceptPrimitive ⟨0⟩ 0))))
      ⟨⟨rfl, rfl, trivial⟩, trivial, trivial, ⟨"lit", 1⟩, rfl, Nat.one_pos⟩
      ⟨by decide +kernel, by decide +kernel, by
        intro l part
        simp only [Expr.parts, List.mem_cons, List.not_mem_nil, reduceCtorEq, Expr.leaf.injEq,
          false_or, or_false] at part
        subst part
        trivial⟩
      (Or.inr (by
        intro op a b part
        simp only [Expr.parts, List.mem_cons, List.not_mem_nil, reduceCtorEq, or_false] at part))
  obtain ⟨f, member, rfl⟩ := feature rfl
  exact ⟨f, member, n, complexity, bound, same⟩

namespace Wide

/-- A predicate with as many positions as there are words of 32 bits. -/
def vocabulary : Vocabulary := ⟨#[⟨"p", 2 ^ 32⟩], #[]⟩

def store : Store := ⟨vocabulary, ⟨#[], 1, ∅⟩, #[]⟩

/-- A state where nothing holds. -/
def states : List State := [⟨.new 0 vocabulary, []⟩]

def config : Config := Lamps.config [.conceptPrimitive, .booleanEmpty] ⟨1, 1, 2, 1, 1⟩

/-- Whether nothing is at the first position. -/
def expression : Expr := .unary .emptyConcept (.leaf (.conceptPrimitive ⟨0⟩ 0))

theorem expression_expressible : expression.Expressible config.limits config.rules where
  enabled := by decide +kernel
  within := by decide +kernel
  ascending l part := by
    simp only [expression, Expr.parts, List.mem_cons, List.not_mem_nil, reduceCtorEq,
      Expr.leaf.injEq, false_or, or_false] at part
    subst part
    trivial

theorem expression_distinct : expression.Distinct states := by
  intro op a b part
  simp only [expression, Expr.parts, List.mem_cons, List.not_mem_nil, reduceCtorEq,
    or_false] at part

end Wide

/-- Of the predicate's positions a word counts none, so a completed run keeps nothing at all,
although the configuration allows an expression about the first position. -/
theorem wide_predicate_left_out :
    Wide.store.Reachable [] ∧ (∀ state ∈ Wide.states, state.problem.Made) ∧
      Wide.expression.Over Wide.store.vocabulary ∧
      Wide.expression.Expressible Wide.config.limits Wide.config.rules ∧
      Wide.expression.Distinct Wide.states ∧
      ∃ g store', generate Wide.config Lamps.clock Wide.states Wide.store = (.ok g, store') ∧
        g.status = .completed ∧ g.features = [] ∧
        (Session.after Wide.config Lamps.clock Wide.states Wide.store).representatives.kept
          = [] := by
  -- The word that counts the positions is zero, so there is no candidate in any layer.
  have found : (generate Wide.config Lamps.clock Wide.states Wide.store).1.toOption.map
      (fun g => (g.status, g.features.length)) = some (.completed, 0) := by decide +kernel
  obtain ⟨g, store', run, ended⟩ := exists_generate found
  obtain ⟨completed, none⟩ := Prod.mk.inj ended
  refine ⟨@Store.Reachable.new Wide.vocabulary 0 Wide.store rfl, ?_,
    ⟨⟨rfl, trivial⟩, trivial, ⟨"p", 2 ^ 32⟩, rfl, by decide⟩, Wide.expression_expressible,
    Wide.expression_distinct, g, store', run, completed, List.length_eq_zero_iff.mp none,
    by decide +kernel⟩
  intro state member
  obtain rfl := List.mem_singleton.mp member
  exact .new 0 Wide.vocabulary

end PlanFeatures
