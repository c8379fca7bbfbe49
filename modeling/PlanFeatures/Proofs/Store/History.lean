import PlanFeatures.Proofs.Store.RoundTrip

/-!
# Trees that are built step by step

A caller builds a tree from its leaves on: every call applies the rule at the root of a
tree to handles of the trees below it.  Other calls may come in between, and indices then
differ from store to store.  What a handle of a built tree is like depends on the tree
alone, and not on the order of operands whose order does not matter.
-/

namespace PlanFeatures

/-- The call applies the rule at the root of the tree to handles of the trees below it. -/
inductive Call.Builds (built : List (Handle × Expr)) : Call → Expr → Prop where
  | leaf (l : Leaf) : Builds built (.leaf l) (.leaf l)
  | projection {h : Handle} {a : Expr} (i : Nat) (operand : (h, a) ∈ built) :
      Builds built (.projection h i) (.unary (.conceptProjection i) a)
  | unary {op : UnaryOp} (other : op.rule ≠ .conceptProjection) {h : Handle} {a : Expr}
      (operand : (h, a) ∈ built) : Builds built (.composite op.rule [h]) (.unary op a)
  | binary (op : BinaryOp) {g h : Handle} {a b : Expr} (left : (g, a) ∈ built)
      (right : (h, b) ∈ built) : Builds built (.composite op.rule [g, h]) (.binary op a b)
  | distance {f g h : Handle} {a r b : Expr} (source : (f, a) ∈ built) (role : (g, r) ∈ built)
      (target : (h, b) ∈ built) :
      Builds built (.composite .numericalDistance [f, g, h]) (.distance a r b)

namespace Store

/-- A store that a caller can reach, with the handles given out so far and with the trees
that some of them have been built as. -/
inductive History : Store → List Handle → List (Handle × Expr) → Prop where
  | start {s : Store} {issued : List Handle} (reachable : s.Reachable issued) : History s issued []
  /-- Any call at all. -/
  | call {s : Store} {issued : List Handle} {built : List (Handle × Expr)}
      (before : History s issued built) (c : Call) (owned : ∀ h ∈ c.arguments, h ∈ issued)
      (proper : c.Proper) : History (c.run s).2 ((c.run s).1 ++ issued) built
  /-- Where a handle came from does not matter: it may be used in place of its tree. -/
  | found {s : Store} {issued : List Handle} {built : List (Handle × Expr)}
      (before : History s issued built) {h : Handle} {t : Expr} (owned : h ∈ issued)
      (tree : s.tree? h = some t) : History s issued ((h, t) :: built)
  | root {s : Store} {issued : List Handle} {built : List (Handle × Expr)}
      (before : History s issued built) {c : Call} {t : Expr} (builds : c.Builds built t)
      (formed : t.Over s.vocabulary) :
      History (c.run s).2 ((c.run s).1 ++ issued) ((c.run s).1.map (·, t) ++ built)

variable {s s' : Store} {h g : Handle} {t : Expr}

/-- Of alike trees, two stores keep the same one. -/
theorem StandsFor.exists_common {u : Expr} (stands : s.StandsFor h t)
    (stands' : s'.StandsFor g u) (alike : t.Alike u) :
    ∃ x, s.Represents h x ∧ s'.Represents g x := by
  obtain ⟨x, represents, alikeX⟩ := stands.tree
  obtain ⟨y, represents', alikeY⟩ := stands'.tree
  have same : x = y := ((alikeX.trans alike).trans alikeY.symm).eq_of_normal
    represents.formed.wellKinded represents'.formed.wellKinded represents.normal represents'.normal
  exact ⟨x, represents, same ▸ represents'⟩

/-! ## One root -/

/-- A node over handles of trees that are alike the operands becomes a handle of the whole. -/
theorem WellFormed.intern_stands (wf : s.WellFormed) {node : Node} {u : Expr}
    (operands : ∀ h ∈ node.operands, s.Has h) (declared : node.Declared s.vocabulary)
    (tree : node.tree? s.trees = some u) (alike : u.Alike t) :
    Outcome (Build.intern node) s (fun h s' => s.Later s' ∧ s'.StandsFor h t) fun _ _ => False := by
  apply (Build.intern_outcome wf operands declared).imp_done
  exact fun h s' added => ⟨added.later, added.stands operands tree alike⟩

theorem exists_run_of_outcome {m : Build Handle}
    (outcome : Outcome m s (fun h s' => s.Later s' ∧ s'.StandsFor h t) fun _ _ => False) :
    ∃ h s', Call.built s m = ([h], s') ∧ s.Later s' ∧ s'.StandsFor h t := by
  obtain ⟨h, s', run, later, stands⟩ := outcome.exists_ok
  exact ⟨h, s', by rw [Call.built, run], later, stands⟩

section
variable {built : List (Handle × Expr)}

/-- Every root over the vocabulary is built, on whatever handles its operands have. -/
theorem WellFormed.exists_run (wf : s.WellFormed)
    (standing : ∀ h t, (h, t) ∈ built → s.StandsFor h t) {c : Call} (builds : c.Builds built t)
    (formed : t.Over s.vocabulary) :
    ∃ h s', c.run s = ([h], s') ∧ s.Later s' ∧ s'.StandsFor h t := by
  -- The checks of a constructor pass for a tree over the vocabulary; what is left is a node
  -- over the handles of the operands.
  cases builds with
  | leaf l =>
    apply exists_run_of_outcome
    apply (Build.leaf_given_of_declared wf formed.declared).imp_done
    exact fun h s' given => ⟨given.later, given.has, _, given.stands, .refl _⟩
  | @projection h a i operand =>
    have stands := standing h a operand
    obtain ⟨x, represents, alike⟩ := stands.tree
    have isRole : h.kind = .role := stands.kind.trans formed.wellKinded.1
    have low : i ≤ 1 := formed.declared.1
    apply exists_run_of_outcome
    simp only [Build.projection, isRole, ne_eq, not_true_eq_false, if_false, Nat.not_lt.mpr low]
    refine wf.intern_stands ?_ low (Node.tree?_unary.mpr ⟨x, represents.tree, rfl⟩)
      (.unary _ alike)
    simp only [Node.operands, List.forall_mem_singleton, UnaryOp.operand]
    exact isRole ▸ stands.has
  | @unary op other h a operand =>
    have stands := standing h a operand
    obtain ⟨x, represents, alike⟩ := stands.tree
    have kind := stands.kind.trans formed.wellKinded.1
    apply exists_run_of_outcome
    rw [Build.composite_unary other kind]
    refine wf.intern_stands ?_ formed.declared.1
      (Node.tree?_unary.mpr ⟨x, represents.tree, rfl⟩) (.unary op alike)
    simp only [Node.operands, List.forall_mem_singleton]
    exact kind ▸ stands.has
  | @binary op g h a b left right =>
    have standsA := standing g a left
    have standsB := standing h b right
    obtain ⟨x, representsX, alikeX⟩ := standsA.tree
    obtain ⟨y, representsY, alikeY⟩ := standsB.tree
    have kindA := standsA.kind.trans formed.wellKinded.1
    have kindB := standsB.kind.trans formed.wellKinded.2.1
    apply exists_run_of_outcome
    rw [Build.composite_binary op kindA kindB]
    refine wf.intern_stands ?_ trivial
      (Node.tree?_binary.mpr ⟨x, y, representsX.tree, representsY.tree, rfl⟩)
      (.binary op alikeX alikeY)
    simp only [Node.operands, List.forall_mem_cons]
    exact ⟨kindA ▸ standsA.has, kindB ▸ standsB.has, by simp⟩
  | @distance f g h a r b source role target =>
    have standsA := standing f a source
    have standsR := standing g r role
    have standsB := standing h b target
    obtain ⟨x, representsX, alikeX⟩ := standsA.tree
    obtain ⟨y, representsY, alikeY⟩ := standsR.tree
    obtain ⟨z, representsZ, alikeZ⟩ := standsB.tree
    obtain ⟨kindA, kindR, kindB, _⟩ := formed.wellKinded
    have kindA := standsA.kind.trans kindA
    have kindR := standsR.kind.trans kindR
    have kindB := standsB.kind.trans kindB
    apply exists_run_of_outcome
    rw [Build.composite_distance kindA kindR kindB]
    refine wf.intern_stands ?_ trivial
      (Node.tree?_distance.mpr ⟨x, y, z, representsX.tree, representsY.tree, representsZ.tree, rfl⟩)
      (.distance alikeX alikeY alikeZ)
    simp only [Node.operands, List.forall_mem_cons]
    exact ⟨kindA ▸ standsA.has, kindR ▸ standsR.has, kindB ▸ standsB.has, by simp⟩

end

/-! ## Histories -/

/-- All along a history the store is well formed and has the handles that it gave out, and
those of built trees stand for them. -/
structure Standing (s : Store) (issued : List Handle) (built : List (Handle × Expr)) : Prop where
  wellFormed : s.WellFormed
  has : ∀ h ∈ issued, s.Has h
  stands : ∀ h t, (h, t) ∈ built → s.StandsFor h t

section
variable {issued issued' : List Handle} {built built' : List (Handle × Expr)}

theorem History.standing (history : s.History issued built) : s.Standing issued built := by
  induction history with
  | start reachable =>
    exact ⟨reachable.wellFormed, reachable.sound.2, by simp⟩
  | call _ c owned proper ih =>
    obtain ⟨later, has⟩ := called ih.wellFormed ih.has c owned proper
    exact ⟨later.wellFormed, has, fun h t member => (ih.stands h t member).extends later.grown⟩
  | @found s _ _ _ h t owned tree ih =>
    have has := ih.has h owned
    obtain ⟨u, represents⟩ := ih.wellFormed.represents has
    -- The tree of a handle is in normal form already.
    cases tree.symm.trans represents.tree
    have stands : s.StandsFor h t := ⟨has, t, represents, .refl t⟩
    refine ⟨ih.wellFormed, ih.has, fun g u member => ?_⟩
    cases member with
    | head => exact stands
    | tail _ old => exact ih.stands g u old
  | @root s _ _ _ c t builds formed ih =>
    obtain ⟨h, s', run, later, stands⟩ := ih.wellFormed.exists_run ih.stands builds formed
    rw [run]
    refine ⟨later.wellFormed, fun g member => ?_, fun g u member => ?_⟩
    · cases member with
      | head => exact stands.has
      | tail _ old => exact later.grown.has (ih.has g old)
    · cases member with
      | head => exact stands
      | tail _ old => exact (ih.stands g u old).extends later.grown

theorem order?_eq (has : s.Has h) (has' : s.Has g) : s.order? h g = some (s.order h g) := by
  by_cases same : h = g
  · simp [order?, order, orderBelow, same]
  · simp [order?, same, has.contains, has'.contains]

/-- Handles that have been built as the same tree, up to the order of operands that does not
matter. -/
def BuiltAlike (built built' : List (Handle × Expr)) (h g : Handle) : Prop :=
  ∃ t u, (h, t) ∈ built ∧ (g, u) ∈ built' ∧ t.Alike u

/-- Every tree over the vocabulary is built, one root after the other, and whatever else the
two stores have been asked for, handles of alike trees are the same to their owners and
compare in the same way. -/
theorem History.canonical_form_unique (first : s.History issued built)
    (second : s'.History issued' built') (vocabulary : s'.vocabulary = s.vocabulary) :
    (∀ (c : Call) (t : Expr), c.Builds built t → t.Over s.vocabulary → ∃ h, (c.run s).1 = [h]) ∧
      ∀ h g, BuiltAlike built built' h g → s.Copied h s' g ∧
        ∀ h₂ g₂, BuiltAlike built built' h₂ g₂ →
          ∃ o, s.order? h h₂ = some o ∧ s'.order? g g₂ = some o := by
  obtain ⟨wf, _, standing⟩ := first.standing
  obtain ⟨wf', _, standing'⟩ := second.standing
  constructor
  · intro c t builds formed
    obtain ⟨h, _, run, _⟩ := wf.exists_run standing builds formed
    exact ⟨h, by rw [run]⟩
  · rintro h g ⟨t, u, member, member', alike⟩
    have stands := standing h t member
    have stands' := standing' g u member'
    obtain ⟨x, represents, represents'⟩ := stands.exists_common stands' alike
    have copied := copied_of_represents wf wf' vocabulary stands.has represents stands'.has
      represents'
    refine ⟨copied, ?_⟩
    rintro h₂ g₂ ⟨t₂, u₂, member₂, member₂', alike₂⟩
    have stands₂ := standing h₂ t₂ member₂
    have stands₂' := standing' g₂ u₂ member₂'
    obtain ⟨y, represents₂, represents₂'⟩ := stands₂.exists_common stands₂' alike₂
    -- Both stores compare the same two trees.
    refine ⟨x.order y, ?_, ?_⟩
    · rw [order?_eq stands.has stands₂.has,
        wf.order_eq stands.has stands₂.has represents.tree represents₂.tree]
    · rw [order?_eq stands'.has stands₂'.has,
        wf'.order_eq stands'.has stands₂'.has represents'.tree represents₂'.tree]

theorem History.next (before : s.History issued built) {c : Call} (builds : c.Builds built t)
    (formed : t.Over s.vocabulary) (run : (c.run s).1 = [h]) :
    (c.run s).2.History (h :: issued) ((h, t) :: built) := by
  have after := before.root builds formed
  rwa [run] at after

end

namespace Blocks

/-- The complement of a union. -/
def neither (a b : Leaf) : Expr := .unary .conceptNot (.binary .conceptOr (.leaf a) (.leaf b))

theorem exists_history :
    ∃ (s : Store) (issued : List Handle) (built : List (Handle × Expr)), s.History issued built ∧
      s.vocabulary = vocabulary ∧ (⟨.concept, 1⟩, .leaf .conceptTop) ∈ built ∧
      (⟨.concept, 4⟩, neither .conceptTop .conceptBot) ∈ built := by
  have start := History.start store_reachable
  have top := start.next (h := ⟨.concept, 1⟩) (.leaf .conceptTop) ⟨trivial, trivial⟩
    (by decide +kernel)
  have bot := top.next (h := ⟨.concept, 2⟩) (.leaf .conceptBot) ⟨trivial, trivial⟩
    (by decide +kernel)
  have union := bot.next (h := ⟨.concept, 3⟩) (.binary .conceptOr (.tail _ (.head _)) (.head _))
    ⟨⟨rfl, rfl, trivial, trivial⟩, trivial, trivial⟩ (by decide +kernel)
  have whole := union.next (h := ⟨.concept, 4⟩) (t := neither .conceptTop .conceptBot)
    (.unary (by decide) (.head _)) ⟨⟨rfl, rfl, rfl, trivial, trivial⟩, trivial, trivial, trivial⟩
    (by decide +kernel)
  exact ⟨_, _, _, whole, by decide +kernel, by simp, .head _⟩

/-- A store that has been asked for something else before, so that it gives out other
indices. -/
theorem exists_history_after_role :
    ∃ (s : Store) (issued : List Handle) (built : List (Handle × Expr)), s.History issued built ∧
      s.vocabulary = vocabulary ∧ (⟨.concept, 3⟩, .leaf .conceptTop) ∈ built ∧
      (⟨.concept, 5⟩, neither .conceptBot .conceptTop) ∈ built ∧
      s.text ⟨.concept, 5⟩ = "c_not(c_or(c_bot,c_top))" := by
  have role := (History.start store_reachable).call (.leaf .roleTop)
    (fun _ member => absurd member List.not_mem_nil) trivial
  have bot := role.next (h := ⟨.concept, 2⟩) (.leaf .conceptBot) ⟨trivial, trivial⟩
    (by decide +kernel)
  have top := bot.next (h := ⟨.concept, 3⟩) (.leaf .conceptTop) ⟨trivial, trivial⟩
    (by decide +kernel)
  have union := top.next (h := ⟨.concept, 4⟩) (.binary .conceptOr (.tail _ (.head _)) (.head _))
    ⟨⟨rfl, rfl, trivial, trivial⟩, trivial, trivial⟩ (by decide +kernel)
  have whole := union.next (h := ⟨.concept, 5⟩) (t := neither .conceptBot .conceptTop)
    (.unary (by decide) (.head _)) ⟨⟨rfl, rfl, rfl, trivial, trivial⟩, trivial, trivial, trivial⟩
    (by decide +kernel)
  exact ⟨_, _, _, whole, by decide +kernel, by simp, .head _, by decide +kernel⟩

end Blocks

/-- The operands come in different orders and have different indices, and the text is one. -/
theorem canonical_form_unique_blocks :
    ∃ (s s' : Store) (issued issued' : List Handle) (built built' : List (Handle × Expr)),
      s.History issued built ∧ s'.History issued' built' ∧
      (⟨.concept, 4⟩, Blocks.neither .conceptTop .conceptBot) ∈ built ∧
      (⟨.concept, 5⟩, Blocks.neither .conceptBot .conceptTop) ∈ built' ∧
      s.text ⟨.concept, 4⟩ = "c_not(c_or(c_bot,c_top))" ∧ s.Copied ⟨.concept, 4⟩ s' ⟨.concept, 5⟩ ∧
      ∃ o, s.order? ⟨.concept, 4⟩ ⟨.concept, 1⟩ = some o ∧
        s'.order? ⟨.concept, 5⟩ ⟨.concept, 3⟩ = some o := by
  obtain ⟨s, issued, built, first, same, top, whole⟩ := Blocks.exists_history
  obtain ⟨s', issued', built', second, same', top', whole', text⟩ :=
    Blocks.exists_history_after_role
  have swapped : (Blocks.neither .conceptTop .conceptBot).Alike
      (Blocks.neither .conceptBot .conceptTop) :=
    .unary _ (.swapped _ rfl (.leaf _) (.leaf _))
  obtain ⟨_, unique⟩ := first.canonical_form_unique second (same'.trans same.symm)
  obtain ⟨copied, compared⟩ := unique _ _ ⟨_, _, whole, whole', swapped⟩
  exact ⟨s, s', issued, issued', built, built', first, second, whole, whole',
    copied.text.symm.trans text, copied, compared _ _ ⟨_, _, top, top', .leaf _⟩⟩

end Store
end PlanFeatures
