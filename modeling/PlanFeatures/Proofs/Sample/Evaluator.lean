import PlanFeatures.Proofs.Outcome
import PlanFeatures.Proofs.Sample.Representatives

/-!
# Evaluators compute what expressions denote

All that an evaluator ever remembers are vectors of stored expressions.  It evaluates the
operands of an expression before the expression, so it does not fail, and its result does
not depend on what it remembered before.
-/

namespace PlanFeatures

variable {ε σ α : Type} {m : ExceptT ε (StateM σ) α} {s : σ}

theorem Outcome.discard {done : α → σ → Prop} {stopped : ε → σ → Prop}
    (outcome : Outcome m s done stopped) :
    Outcome (Functor.discard m) s (fun _ s' => ∃ a, done a s') stopped := by
  show Outcome ((fun _ => PUnit.unit) <$> m) s _ stopped
  rw [← bind_pure_comp, bind_iff]
  exact outcome.imp_done fun a s' there => ⟨a, there⟩

namespace Evaluator
variable {store store' : Store} {states : List State} {e e' e'' : Evaluator} {h : Handle}
  {vector : ExtensionVector}

/-- The evaluator remembers vectors of stored expressions over the sample. -/
structure Fits (store : Store) (states : List State) (e : Evaluator) : Prop where
  sample : e.states = states
  known : ∀ {i vector}, e.cache.peek? i = some vector →
    ∃ h, h.index = i ∧ store.Denotes states h vector

/-- What was remembered is remembered still. -/
def Grown (e e' : Evaluator) : Prop :=
  ∀ i vector, e.cache.peek? i = some vector → e'.cache.peek? i = some vector

theorem Grown.trans (first : e.Grown e') (second : e'.Grown e'') : e.Grown e'' :=
  fun i vector known => second i vector (first i vector known)

theorem fits_new (store : Store) (states : List State) : (new states).Fits store states where
  sample := rfl
  known found := by simp [new, Cache.empty, Cache.peek?] at found

theorem Fits.extends (fits : e.Fits store states) (grown : store.Extends store') :
    e.Fits store' states where
  sample := fits.sample
  known found := by
    obtain ⟨h, index, denotes⟩ := fits.known found
    exact ⟨h, index, denotes.extends grown⟩

theorem Fits.denotes (fits : e.Fits store states) (has : store.Has h)
    (known : e.cache.peek? h.index = some vector) : store.Denotes states h vector := by
  obtain ⟨g, index, denotes⟩ := fits.known known
  cases denotes.has.eq_of_index has index
  exact denotes

theorem Fits.remember (fits : e.Fits store states) (denotes : store.Denotes states h vector) :
    (e.remember h vector).Fits store states ∧ e.Grown (e.remember h vector) := by
  refine ⟨⟨fits.sample, fun {i w} found => ?_⟩, fun i w known => ?_⟩
  · change (e.cache.insert h.index vector).peek? i = some w at found
    rw [Cache.peek?_insert] at found
    split at found
    next same =>
      cases found
      exact ⟨h, same, denotes⟩
    next => exact fits.known found
  · show (e.cache.insert h.index vector).peek? i = some w
    rw [Cache.peek?_insert]
    split
    next same =>
      -- An expression that was known has only one vector.
      rw [← same] at known
      rw [denotes.unique (fits.denotes denotes.has known)]
    next => exact known

end Evaluator

namespace Sampling
open Evaluator
variable {store : Store} {states : List State} {e : Evaluator} {h : Handle}

/-- The evaluator has the vector of an expression, and what it knew before. -/
structure Evaluated (store : Store) (states : List State) (e : Evaluator) (h : Handle)
    (vector : ExtensionVector) (e' : Evaluator) : Prop where
  denotes : store.Denotes states h vector
  fits : e'.Fits store states
  grown : e.Grown e'
  known : e'.cache.peek? h.index = some vector

theorem lookUp_outcome (fits : e.Fits store states) (h : Handle) :
    Outcome (lookUp h) e
      (fun found e' => found = e.cache.peek? h.index ∧ e'.Fits store states ∧
        ∀ i, e'.cache.peek? i = e.cache.peek? i)
      (fun _ _ => False) := by
  simp only [lookUp, Outcome.modifyGet_iff, Cache.peek?_get, implies_true, and_true]
  refine ⟨?_, fits.sample, fun {i w} found => fits.known ?_⟩
  · unfold Cache.get
    split <;> simp_all
  · rwa [← Cache.peek?_get e.cache h.index i]

/-- The operands of a node are evaluated one after another. -/
theorem operands_outcome {fuel : Nat} {operands : List Handle}
    (step : ∀ g ∈ operands, ∀ e : Evaluator, e.Fits store states →
      Outcome (vectorBelow store fuel g) e (Evaluated store states e g) (fun _ _ => False))
    (fits : e.Fits store states) :
    Outcome (operands.forM fun g => discard (vectorBelow store fuel g)) e
      (fun _ e' => e'.Fits store states ∧ e.Grown e' ∧
        ∀ g ∈ operands, ∃ vector, e'.cache.peek? g.index = some vector)
      (fun _ _ => False) := by
  let invariant (rest : List Handle) (e' : Evaluator) : Prop :=
    e'.Fits store states ∧ e.Grown e' ∧ (∀ g ∈ rest, g ∈ operands) ∧
      ∀ g ∈ operands, g ∈ rest ∨ ∃ vector, e'.cache.peek? g.index = some vector
  have start : invariant operands e :=
    ⟨fits, fun _ _ known => known, fun _ member => member, fun _ member => Or.inl member⟩
  refine (Outcome.forM_of_invariant invariant ?_ operands start).imp_done ?_
  · rintro g rest e₁ ⟨fits₁, grown₁, inside, known₁⟩
    refine (step g (inside g List.mem_cons_self) e₁ fits₁).discard.imp_done ?_
    rintro _ e₂ ⟨vector, evaluated⟩
    refine ⟨evaluated.fits, grown₁.trans evaluated.grown,
      fun g member => inside g (List.mem_cons_of_mem _ member), fun g' member => ?_⟩
    rcases known₁ g' member with left | ⟨w, known⟩
    · rcases List.mem_cons.mp left with rfl | left
      · exact Or.inr ⟨vector, evaluated.known⟩
      · exact Or.inl left
    · exact Or.inr ⟨w, evaluated.grown _ w known⟩
  · rintro _ e' ⟨fits', grown, _, known⟩
    exact ⟨fits', grown, fun g member => (known g member).resolve_left List.not_mem_nil⟩

theorem vectorBelow_outcome (wf : store.WellFormed)
    (sample : ∀ state ∈ states, state.Over store.vocabulary) {fuel : Nat} (fueled : h.index < fuel)
    (has : store.Has h) (fits : e.Fits store states) :
    Outcome (vectorBelow store fuel h) e (Evaluated store states e h) (fun _ _ => False) := by
  -- Operands have smaller indices, so the fuel that is left is enough for them.
  induction fuel generalizing e h with
  | zero => omega
  | succ fuel ih =>
    unfold vectorBelow
    rw [Outcome.bind_iff]
    refine (lookUp_outcome fits h).imp_done ?_
    rintro found e₁ ⟨rfl, fits₁, same⟩
    have grown₁ : e.Grown e₁ := fun i vector known => (same i).trans known
    split
    next vector known =>
      exact ⟨fits.denotes has known, fits₁, grown₁, (same _).trans known⟩
    next =>
      obtain ⟨node, stored, kind⟩ := has
      obtain ⟨t, stands⟩ := wf.represents ⟨node, stored, kind⟩
      have spell := (wf.trees_eq stored).symm.trans stands.tree
      obtain ⟨vector, value⟩ := Expr.vector_ok sample stands.formed
      have denotes : store.Denotes states h vector := ⟨⟨node, stored, kind⟩, t, stands, value⟩
      have operands : ∀ g ∈ node.operands, ∀ e : Evaluator, e.Fits store states →
          Outcome (vectorBelow store fuel g) e (Evaluated store states e g)
            (fun _ _ => False) := by
        intro g member e fits
        have earlier := wf.earlier stored g member
        exact ih (by omega) (wf.has stored g member) fits
      rw [stored]
      simp only [Outcome.bind_iff]
      refine (operands_outcome operands fits₁).imp_done ?_
      rintro _ e₂ ⟨fits₂, grown₂, known₂⟩
      -- All operands are known, and with their own vectors.
      have computed : e₂.compute node = .ok vector := by
        have sample' : ∀ state ∈ e₂.states, state.Over store.vocabulary := fits₂.sample ▸ sample
        rw [Evaluator.compute_eq sample' stands.formed spell, fits₂.sample, value]
        intro g member x tree
        obtain ⟨w, known⟩ := known₂ g member
        refine ⟨w, known, ?_⟩
        rw [fits₂.sample]
        exact (fits₂.denotes (wf.has stored g member) known).vector_eq tree
      simp only [Outcome.get_iff, computed, vectorBelow.liftExcept, Outcome.pure_iff,
        Outcome.modify_iff]
      obtain ⟨fits₃, grown₃⟩ := fits₂.remember denotes
      refine ⟨denotes, fits₃, (grown₁.trans grown₂).trans grown₃, ?_⟩
      show (e₂.cache.insert h.index vector).peek? h.index = some vector
      rw [Cache.peek?_insert, if_pos rfl]

/-- An evaluator gives the vector of a stored expression. -/
theorem vector_outcome (wf : store.WellFormed)
    (sample : ∀ state ∈ states, state.Over store.vocabulary) (has : store.Has h)
    (fits : e.Fits store states) :
    Outcome (vector store h) e (Evaluated store states e h) (fun _ _ => False) :=
  vectorBelow_outcome wf sample (Nat.lt_succ_self _) has fits

end Sampling
end PlanFeatures
