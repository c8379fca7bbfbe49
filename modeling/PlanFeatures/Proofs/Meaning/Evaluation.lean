import PlanFeatures.Proofs.Meaning.Trees
import PlanFeatures.Proofs.Store.WellFormed

/-!
# Evaluation computes what trees denote

Evaluation goes through the nodes of a store and keeps a memo.  All that is ever in
the memo are the extensions of trees, and the operands of a node are in it before
the node is evaluated.  So the evaluation of a stored expression does not fail, and
its result does not depend on what is shared.
-/

namespace PlanFeatures

/-- The memo holds extensions of trees of the store. -/
def Memo.Fits (store : Store) (s : State) (memo : Memo s.objectCount) : Prop :=
  ∀ i d, memo[i]? = some d → ∃ t, store.trees i = some t ∧ t.denote s = .ok d

/-- A memo that fits and has all that another one has. -/
structure Memo.Grown (store : Store) (s : State) (memo memo' : Memo s.objectCount) : Prop where
  fits : memo'.Fits store s
  kept : ∀ i, memo.contains i = true → memo'.contains i = true

namespace Memo
variable {store : Store} {s : State} {memo memo' memo'' : Memo s.objectCount}

theorem Grown.trans (first : memo.Grown store s memo') (second : memo'.Grown store s memo'') :
    memo.Grown store s memo'' :=
  ⟨second.fits, fun i member => second.kept i (first.kept i member)⟩

theorem Fits.find (fits : memo.Fits store s) {h : Handle} {t : Expr}
    (member : memo.contains h.index = true) (tree : store.trees h.index = some t) :
    memo.find h = t.denote s := by
  obtain ⟨d, found⟩ : ∃ d, memo[h.index]? = some d := by
    rw [Std.TreeMap.contains_eq_isSome_getElem?] at member
    exact Option.isSome_iff_exists.mp member
  obtain ⟨u, same, value⟩ := fits _ _ found
  cases tree.symm.trans same
  rw [Memo.find, found, value]

theorem Fits.insert (fits : memo.Fits store s) {i : Nat} {t : Expr} {d : Extension s.objectCount}
    (tree : store.trees i = some t) (value : t.denote s = .ok d) :
    memo.Grown store s (memo.insert i d) where
  fits := by
    intro j e found
    rw [Std.TreeMap.getElem?_insert] at found
    split at found
    next same =>
      cases found
      rw [← Nat.compare_eq_eq.mp same]
      exact ⟨t, tree, value⟩
    next => exact fits j e found
  kept j member := by simp [Std.TreeMap.contains_insert, member]

end Memo

namespace Store

theorem evaluateAll_ok {store : Store} {s : State} {fuel : Nat} {operands : List Handle}
    (step : ∀ h ∈ operands, ∀ memo : Memo s.objectCount, memo.Fits store s →
      ∃ memo', store.evaluateBelow s fuel memo h = .ok memo' ∧ memo.Grown store s memo' ∧
        memo'.contains h.index = true)
    {memo : Memo s.objectCount} (fits : memo.Fits store s) :
    ∃ memo', operands.foldlM (store.evaluateBelow s fuel) memo = .ok memo' ∧
      memo.Grown store s memo' ∧ ∀ h ∈ operands, memo'.contains h.index = true := by
  induction operands generalizing memo with
  | nil =>
    refine ⟨memo, rfl, ⟨fits, fun _ member => member⟩, ?_⟩
    intro h member
    cases member
  | cons h rest ih =>
    obtain ⟨memo₁, first, grown₁, there⟩ := step h List.mem_cons_self memo fits
    obtain ⟨memo₂, more, grown₂, all⟩ :=
      ih (fun h member => step h (List.mem_cons_of_mem _ member)) grown₁.fits
    refine ⟨memo₂, ?_, grown₁.trans grown₂, ?_⟩
    · rw [List.foldlM_cons, first]
      exact more
    · intro g member
      cases member with
      | head => exact grown₂.kept _ there
      | tail _ member => exact all g member

theorem WellFormed.evaluateBelow_ok {store : Store} (wf : store.WellFormed) {s : State}
    (state : s.Over store.vocabulary) {fuel : Nat} {memo : Memo s.objectCount} {h : Handle}
    (fueled : h.index < fuel) (has : store.Has h) (fits : memo.Fits store s) :
    ∃ memo', store.evaluateBelow s fuel memo h = .ok memo' ∧ memo.Grown store s memo' ∧
      memo'.contains h.index = true := by
  -- Operands have smaller indices, so the fuel that is left is enough for them.
  induction fuel generalizing memo h with
  | zero => omega
  | succ fuel ih =>
    unfold evaluateBelow
    split
    next there => exact ⟨memo, rfl, ⟨fits, fun _ member => member⟩, there⟩
    next =>
      obtain ⟨node, stored, kind⟩ := has
      have operands : ∀ g ∈ node.operands, g.index < fuel := by
        intro g member
        have earlier := wf.earlier stored g member
        omega
      obtain ⟨memo₁, all, grown, there⟩ := evaluateAll_ok (fun g member memo fits =>
        @ih memo g (operands g member) (wf.has stored g member) fits) fits
      obtain ⟨t, stands⟩ := wf.represents ⟨node, stored, kind⟩
      obtain ⟨d, value, _⟩ := Expr.denote_ok state stands.formed
      have spell := (wf.trees_eq stored).symm.trans stands.tree
      -- When the node is evaluated, all its operands are in the memo.
      have here : node.denote s memo₁.find = .ok d := by
        rw [← value]
        exact Node.denote_of_tree? state stands.formed spell fun g member x tree =>
          grown.fits.find (there g member) tree
      refine ⟨memo₁.insert h.index d, ?_, grown.trans (grown.fits.insert stands.tree value), ?_⟩
      · simp only [stored, all]
        show (do return memo₁.insert h.index (← node.denote s memo₁.find)) = _
        rw [here]
        rfl
      · simp

/-- A stored expression denotes what its tree does. -/
theorem WellFormed.evaluate_eq {store : Store} (wf : store.WellFormed) {s : State}
    (state : s.Over store.vocabulary) {h : Handle} {t : Expr} (has : store.Has h)
    (stands : store.Represents h t) : store.evaluate h s = t.denote s := by
  have empty : (∅ : Memo s.objectCount).Fits store s := by
    intro i d found
    simp at found
  obtain ⟨memo, whole, grown, there⟩ := wf.evaluateBelow_ok state (Nat.lt_succ_self _) has empty
  obtain ⟨d, value, kind⟩ := Expr.denote_ok state stands.formed
  have found := grown.fits.find there stands.tree
  rw [value] at found ⊢
  unfold evaluate
  rw [whole]
  show (do
    let d ← memo.find h
    if d.kind = h.kind then return d else throw (EvalError.otherKind h)) = _
  rw [found]
  show (if d.kind = h.kind then Except.ok d else .error (EvalError.otherKind h)) = _
  rw [if_pos (kind.trans stands.kind)]

end Store
end PlanFeatures
