import Mathlib.Data.List.Forall2
import PlanFeatures.Proofs.Generation.Deduplication
import PlanFeatures.Proofs.Sample.Evaluator
import PlanFeatures.Proofs.Store.Permanence

/-!
# What an evaluator remembers

However an evaluator is asked for expressions of a store, each vector that it gives holds
what plain evaluation gives in the states, one after another.  What it remembers is what
the expressions that it was asked for are made of, and each of these was computed once:
there are as many misses as vectors.
-/

namespace PlanFeatures

/-! ## Requests -/

/-- Requests for expressions of a store, each with the store as it was then.  The owner of
the store may extend it between them. -/
inductive Store.Requests : Store → List Handle → List (Store × Handle) → Prop where
  | start {s : Store} {issued : List Handle} (reachable : s.Reachable issued) :
    Requests s issued []
  | request {s : Store} {issued : List Handle} {calls : List (Store × Handle)} {h : Handle}
    (before : Requests s issued calls) (owned : h ∈ issued) : Requests s issued (calls ++ [(s, h)])
  | call {s : Store} {issued : List Handle} {calls : List (Store × Handle)}
    (before : Requests s issued calls) (c : Call) (owned : ∀ h ∈ c.arguments, h ∈ issued)
    (proper : c.Proper) : Requests (c.run s).2 ((c.run s).1 ++ issued) calls

/-- An expression that another one is made of, the expression itself included. -/
inductive Store.Part (s : Store) : Handle → Handle → Prop where
  | self (h : Handle) : s.Part h h
  | operand {x g h : Handle} {node : Node} (stored : s.node? h = some node)
    (member : g ∈ node.operands) (part : s.Part x g) : s.Part x h

namespace Store
variable {s s' : Store} {issued : List Handle} {calls : List (Store × Handle)} {g h x : Handle}

/-- What a request was about is there still. -/
structure Requested (s : Store) (c : Store × Handle) : Prop where
  wellFormed : c.1.WellFormed
  has : c.1.Has c.2
  grown : c.1.Extends s

theorem Requested.later {c : Store × Handle} (requested : s.Requested c) (later : s.Later s') :
    s'.Requested c :=
  ⟨requested.wellFormed, requested.has, requested.grown.trans later.grown⟩

theorem Requests.reachable (requests : s.Requests issued calls) : s.Reachable issued := by
  induction requests with
  | start reachable => exact reachable
  | request _ _ ih => exact ih
  | call _ c owned proper ih => exact ih.call c owned proper

theorem Requests.requested (requests : s.Requests issued calls) : ∀ c ∈ calls, s.Requested c := by
  induction requests with
  | start => exact fun c member => absurd member List.not_mem_nil
  | request before owned ih =>
    obtain ⟨wf, has⟩ := before.reachable.sound
    intro c member
    rcases List.mem_append.mp member with old | new
    · exact ih c old
    · rw [List.mem_singleton.mp new]
      exact ⟨wf, has _ owned, .refl _⟩
  | call before c owned proper ih =>
    obtain ⟨wf, has⟩ := before.reachable.sound
    obtain ⟨later, _⟩ := called wf has c owned proper
    exact fun c member => (ih c member).later later

/-! ## Parts -/

theorem Part.index_le (part : s.Part x h) (grounded : s.Grounded) : x.index ≤ h.index := by
  induction part with
  | self => exact Nat.le_refl _
  | operand stored member _ ih => exact Nat.le_of_lt (Nat.lt_of_le_of_lt ih
      (grounded.earlier stored _ member))

theorem Part.iff_of_node {node : Node} (stored : s.node? h = some node) :
    s.Part x h ↔ x = h ∨ ∃ g ∈ node.operands, s.Part x g := by
  constructor
  · intro part
    cases part with
    | self => exact Or.inl rfl
    | operand stored' member part =>
      cases stored.symm.trans stored'
      exact Or.inr ⟨_, member, part⟩
  · rintro (rfl | ⟨g, member, part⟩)
    · exact .self x
    · exact .operand stored member part

/-- An expression is made of the same as long as it is there. -/
theorem Extends.part_iff (grown : s.Extends s') (grounded : s.Grounded) (has : s.Has h) :
    s'.Part x h ↔ s.Part x h := by
  constructor
  · intro part
    induction part with
    | self => exact .self _
    | operand stored' member _ ih =>
      obtain ⟨node, stored, _⟩ := has
      cases stored'.symm.trans (grown.get? stored)
      exact .operand stored member (ih (grounded.has stored _ member))
  · intro part
    induction part with
    | self => exact .self _
    | operand stored member _ ih =>
      exact .operand (grown.get? stored) member (ih (grounded.has stored _ member))

end Store

theorem forM_congr {α : Type} {m : Type → Type} [Monad m] {f g : α → m PUnit} {as : List α}
    (same : ∀ a ∈ as, f a = g a) : as.forM f = as.forM g := by
  induction as with
  | nil => rfl
  | cons a rest ih =>
    show (f a >>= fun _ => rest.forM f) = (g a >>= fun _ => rest.forM g)
    rw [same a List.mem_cons_self, ih fun b member => same b (List.mem_cons_of_mem _ member)]

namespace Sampling
open Evaluator
variable {s s' store : Store} {states : List State} {e : Evaluator} {g h : Handle}

/-! ## Stores that grow -/

theorem vectorBelow_eq (grown : s.Extends s') (grounded : s.Grounded) {fuel : Nat}
    (has : s.Has h) : vectorBelow s' fuel h = vectorBelow s fuel h := by
  induction fuel generalizing h with
  | zero => rfl
  | succ fuel ih =>
    obtain ⟨node, stored, _⟩ := has
    have stored' : s'.node? h = some node := grown.get? stored
    unfold vectorBelow
    refine bind_congr fun found => ?_
    cases found with
    | some vector => rfl
    | none =>
      rw [stored, stored']
      have operands : (node.operands.forM fun g => discard (vectorBelow s' fuel g))
          = node.operands.forM fun g => discard (vectorBelow s fuel g) :=
        forM_congr fun g member => by rw [ih (grounded.has stored g member)]
      simp only [operands]

/-- A request gets the same from every later store. -/
theorem vector_eq {c : Store × Handle} (requested : s.Requested c) :
    vector s c.2 = vector c.1 c.2 :=
  vectorBelow_eq requested.grown requested.wellFormed.toGrounded requested.has

end Sampling

/-! ## What is remembered -/

namespace Evaluator
variable {store : Store} {states : List State} {e e' e'' : Evaluator} {h x : Handle}
  {done more : List Handle}

/-- The evaluator has a vector for the expression with an index. -/
def Holds (e : Evaluator) (i : Nat) : Prop := (e.cache.peek? i).isSome = true

instance (e : Evaluator) (i : Nat) : Decidable (e.Holds i) :=
  inferInstanceAs (Decidable (_ = true))

theorem holds_new (states : List State) (i : Nat) : ¬ (new states).Holds i := by
  simp [Holds, new, Cache.peek?, Cache.empty]

/-- The operands of what is held are held. -/
def Closed (store : Store) (e : Evaluator) : Prop :=
  ∀ h node, store.node? h = some node → e.Holds h.index → ∀ g ∈ node.operands, e.Holds g.index

theorem Closed.part (closed : e.Closed store) (part : store.Part x h) (holds : e.Holds h.index) :
    e.Holds x.index := by
  induction part with
  | self => exact holds
  | operand stored member _ ih => exact ih (closed _ _ stored holds _ member)

/-- Some expressions were evaluated: what they are made of is held now, besides what was held
before, and each new vector was missed once. -/
structure Charged (store : Store) (done : List Handle) (e e' : Evaluator) : Prop where
  closed : e'.Closed store
  holds : ∀ i, e'.Holds i ↔ e.Holds i ∨ ∃ h ∈ done, ∃ x, store.Part x h ∧ x.index = i
  misses : e'.cache.misses + e.cache.size = e.cache.misses + e'.cache.size

theorem Charged.none (closed : e.Closed store) : e.Charged store [] e where
  closed := closed
  holds i := by simp
  misses := rfl

theorem Charged.append (first : e.Charged store done e') (second : e'.Charged store more e'') :
    e.Charged store (done ++ more) e'' where
  closed := second.closed
  holds i := by
    rw [second.holds, first.holds]
    simp only [List.mem_append, or_and_right, exists_or, or_assoc]
  misses := by
    have before := first.misses
    have after := second.misses
    omega

/-- An expression that is held costs nothing. -/
theorem Charged.hit (closed : e.Closed store) (holds : e.Holds h.index) :
    e.Charged store [h] e where
  closed := closed
  holds i := by
    refine ⟨Or.inl, ?_⟩
    rintro (held | ⟨_, member, x, part, rfl⟩)
    · exact held
    · rw [List.mem_singleton.mp member] at part
      exact closed.part part holds
  misses := rfl

/-- An expression is remembered after its operands, and was not held before. -/
theorem Charged.remember {node : Node} (grounded : store.Grounded)
    (stored : store.node? h = some node) (absent : ¬ e.Holds h.index)
    (operands : e.Charged store node.operands e') (vector : ExtensionVector) :
    (e'.remember h vector).Closed store ∧
      (∀ i, (e'.remember h vector).Holds i
        ↔ e.Holds i ∨ ∃ x, store.Part x h ∧ x.index = i) ∧
      (e'.remember h vector).cache.size = e'.cache.size + 1 := by
  have remembered : ∀ i, (e'.remember h vector).Holds i ↔ h.index = i ∨ e'.Holds i := by
    intro i
    simp only [Holds, Evaluator.remember, Cache.peek?_insert]
    split <;> simp_all
  -- All that was held meanwhile are earlier expressions.
  have absent' : ¬ e'.Holds h.index := by
    rw [operands.holds]
    rintro (held | ⟨g, member, x, part, same⟩)
    · exact absent held
    · have below := part.index_le grounded
      have earlier := grounded.earlier stored g member
      omega
  refine ⟨?_, ?_, ?_⟩
  · intro g node' stored' held operand member
    rw [remembered] at held ⊢
    right
    rcases held with same | held
    · have both : store.node? g = some node := by
        unfold Store.node? at stored ⊢
        rw [← same, stored]
      cases both.symm.trans stored'
      exact (operands.holds _).mpr (Or.inr ⟨operand, member, operand, .self _, rfl⟩)
    · exact operands.closed g node' stored' held operand member
  · intro i
    rw [remembered, operands.holds]
    simp only [Store.Part.iff_of_node stored]
    constructor
    · rintro (same | held | ⟨g, member, x, part, same⟩)
      · exact Or.inr ⟨h, Or.inl rfl, same⟩
      · exact Or.inl held
      · exact Or.inr ⟨x, Or.inr ⟨g, member, part⟩, same⟩
    · rintro (held | ⟨x, rfl | ⟨g, member, part⟩, same⟩)
      · exact Or.inr (Or.inl held)
      · exact Or.inl same
      · exact Or.inr (Or.inr ⟨g, member, x, part, same⟩)
  · exact Cache.size_insert (by simpa [Holds] using absent') vector

end Evaluator

namespace Sampling
open Evaluator
variable {store : Store} {states : List State} {e : Evaluator} {h : Handle}

theorem operands_charged {fuel : Nat} {operands : List Handle}
    (step : ∀ g ∈ operands, ∀ e : Evaluator, e.Closed store →
      Outcome (vectorBelow store fuel g) e (fun _ e' => e.Charged store [g] e') fun _ _ => True)
    (closed : e.Closed store) :
    Outcome (operands.forM fun g => discard (vectorBelow store fuel g)) e
      (fun _ e' => e.Charged store operands e') fun _ _ => True := by
  let invariant (rest : List Handle) (e' : Evaluator) : Prop :=
    ∃ done, operands = done ++ rest ∧ e.Charged store done e'
  refine (Outcome.forM_of_invariant invariant ?_ operands ⟨[], rfl, .none closed⟩).imp_done ?_
  · rintro g rest e₁ ⟨done, rfl, charged⟩
    have member : g ∈ done ++ g :: rest := List.mem_append_right _ List.mem_cons_self
    refine (Outcome.discard (step g member e₁ charged.closed)).imp_done ?_
    rintro _ e₂ ⟨_, more⟩
    exact ⟨done ++ [g], by simp, charged.append more⟩
  · rintro _ e' ⟨done, rfl, charged⟩
    rwa [List.append_nil]

theorem lookUp_charged (e : Evaluator) (h : Handle) :
    Outcome (lookUp h) e
      (fun found e' => found = e.cache.peek? h.index ∧ (∀ i, e'.Holds i ↔ e.Holds i) ∧
        e'.cache.size = e.cache.size ∧
        e'.cache.misses = e.cache.misses + if e.Holds h.index then 0 else 1)
      fun _ _ => True := by
  simp only [lookUp, Outcome.modifyGet_iff, Holds, Cache.peek?_get, implies_true, true_and]
  unfold Cache.get
  split
  next vector found => simp [found, Cache.size]
  next absent => simp [absent, Cache.size]

theorem vectorBelow_charged (wf : store.WellFormed) {fuel : Nat} (has : store.Has h)
    (closed : e.Closed store) :
    Outcome (vectorBelow store fuel h) e (fun _ e' => e.Charged store [h] e') fun _ _ => True := by
  induction fuel generalizing e h with
  | zero => trivial
  | succ fuel ih =>
    unfold vectorBelow
    rw [Outcome.bind_iff]
    refine (lookUp_charged e h).imp_done ?_
    rintro found e₁ ⟨rfl, same, size, misses⟩
    have closed₁ : e₁.Closed store := fun g node stored held operand member =>
      (same _).mpr (closed g node stored ((same _).mp held) operand member)
    split
    next vector known =>
      have holds : e.Holds h.index := by simp [Holds, known]
      have hit := Charged.hit closed₁ ((same _).mpr holds)
      refine ⟨hit.closed, fun i => ?_, ?_⟩
      · rw [hit.holds, same]
      · rw [misses, if_pos holds, size, Nat.add_zero]
    next unknown =>
      have absent : ¬ e.Holds h.index := by simp [Holds, unknown]
      obtain ⟨node, stored, _⟩ := has
      rw [stored]
      simp only [Outcome.bind_iff]
      refine (operands_charged (fun g member e closed =>
        ih (wf.has stored g member) closed) closed₁).imp_done ?_
      intro _ e₂ operands
      simp only [Outcome.get_iff]
      cases e₂.compute node with
      | error fault => trivial
      | ok vector =>
        simp only [vectorBelow.liftExcept, Outcome.pure_iff, Outcome.modify_iff]
        have absent₁ : ¬ e₁.Holds h.index := by rwa [same]
        obtain ⟨closed₃, holds, size₃⟩ :=
          operands.remember wf.toGrounded stored absent₁ vector
        refine ⟨closed₃, fun i => ?_, ?_⟩
        · rw [holds, same]
          simp
        · have counted := operands.misses
          have unchanged : (e₂.remember h vector).cache.misses = e₂.cache.misses := rfl
          rw [if_neg absent] at misses
          omega

theorem vector_charged (wf : store.WellFormed) (has : store.Has h) (closed : e.Closed store) :
    Outcome (vector store h) e (fun _ e' => e.Charged store [h] e') fun _ _ => True :=
  vectorBelow_charged wf has closed

/-! ## Expressions one after another -/

theorem vectors_outcome (wf : store.WellFormed)
    (sample : ∀ state ∈ states, state.Over store.vocabulary) {handles : List Handle}
    (has : ∀ h ∈ handles, store.Has h) :
    Outcome (handles.mapM (vector store)) (.new states)
      (fun vectors e => List.Forall₂ (store.Denotes states) handles vectors ∧
        Evaluator.Charged store handles (.new states) e)
      fun _ _ => False := by
  let invariant (rest : List Handle) (vectors : List ExtensionVector) (e : Evaluator) : Prop :=
    ∃ done, handles = done ++ rest ∧ List.Forall₂ (store.Denotes states) done vectors ∧
      e.Fits store states ∧ Evaluator.Charged store done (.new states) e
  have start : invariant handles [] (.new states) :=
    ⟨[], rfl, .nil, fits_new store states,
      .none fun g node _ held => absurd held (holds_new states _)⟩
  refine (Outcome.mapM_of_invariant invariant ?_ handles [] start).imp_done ?_
  · rintro h rest vectors e ⟨done, rfl, denoted, fits, charged⟩
    have here := has h (List.mem_append_right _ List.mem_cons_self)
    have outcome := (vector_outcome wf sample here fits).and (vector_charged wf here charged.closed)
    refine outcome.imp ?_ fun _ _ impossible => impossible.1
    rintro vector e' ⟨evaluated, more⟩
    refine ⟨done ++ [h], by simp, List.rel_append denoted (.cons evaluated.denotes .nil),
      evaluated.fits, charged.append more⟩
  · rintro vectors e ⟨done, rfl, denoted, _, charged⟩
    rw [List.append_nil, List.nil_append] at *
    exact ⟨denoted, charged⟩

end Sampling

/-- What was given for some requests, and what the evaluator remembers after them. -/
structure Evaluator.Exact (states : List State) (calls : List (Store × Handle))
    (vectors : List ExtensionVector) (e : Evaluator) : Prop where
  /-- The vectors have, for each state, what plain evaluation gives there. -/
  values : List.Forall₂ (fun c vector => vector.length = states.length ∧
    ∀ (i : Nat) (state : State), states[i]? = some state →
      ∃ d, c.1.evaluate c.2 state = .ok d ∧ vector[i]? = some ⟨state.objectCount, d⟩) calls vectors
  holds : ∀ i, e.Holds i ↔ ∃ c ∈ calls, ∃ x, c.1.Part x c.2 ∧ x.index = i
  misses : e.cache.misses = e.cache.size

/-- However a new evaluator is asked for expressions of a store, it gives what plain evaluation
gives in each state, holds what the expressions are made of, and missed each of these once. -/
theorem Store.Requests.evaluated {s : Store} {issued : List Handle} {calls : List (Store × Handle)}
    (requests : s.Requests issued calls) {states : List State}
    (sample : ∀ state ∈ states, state.Over s.vocabulary) :
    ∃ vectors e, (calls.mapM fun c => Sampling.vector c.1 c.2).run (.new states)
      = (.ok vectors, e) ∧ e.Exact states calls vectors := by
  have wf := requests.reachable.wellFormed
  have requested := requests.requested
  -- All requests may as well be made at the end.
  have atEnd : (calls.mapM fun c => Sampling.vector c.1 c.2)
      = (calls.map Prod.snd).mapM (Sampling.vector s) := by
    rw [List.mapM_map]
    exact mapM_congr fun c member => (Sampling.vector_eq (requested c member)).symm
  have has : ∀ h ∈ calls.map Prod.snd, s.Has h := by
    intro h member
    obtain ⟨c, inside, rfl⟩ := List.mem_map.mp member
    exact (requested c inside).grown.has (requested c inside).has
  obtain ⟨vectors, e, run, denoted, charged⟩ := (Sampling.vectors_outcome wf sample has).exists_ok
  rw [atEnd]
  refine ⟨vectors, e, run, ⟨?_, fun i => ?_, ?_⟩⟩
  · rw [List.forall₂_map_left_iff] at denoted
    refine ((List.forall₂_and_left _ _).mpr ⟨requested, denoted⟩).imp ?_
    rintro c vector ⟨requested, denotes⟩
    obtain ⟨length, places⟩ := denotes.evaluate wf sample
    refine ⟨length, fun i state found => ?_⟩
    rw [← requested.grown.evaluate_eq requested.wellFormed.toGrounded requested.has state]
    exact places i state found
  · rw [charged.holds, or_iff_right (Evaluator.holds_new states i)]
    simp only [List.mem_map, exists_exists_and_eq_and]
    refine exists_congr fun c => and_congr_right fun member => ?_
    have requested := requested c member
    simp only [requested.grown.part_iff requested.wellFormed.toGrounded requested.has]
  · have misses := charged.misses
    have unused : (Evaluator.new states).cache.misses = 0 := rfl
    have empty : (Evaluator.new states).cache.size = 0 := rfl
    omega

namespace Lamps

/-- The lit lamps and the others, asked for one after the other; then what both have in common,
and the lit lamps again. -/
def lit : Store := (Call.run store (.leaf (.conceptPrimitive ⟨0⟩ 0))).2

def unlit : Store := (Call.run lit (.composite .conceptNot [⟨.concept, 1⟩])).2

def both : Store := (Call.run unlit (.composite .conceptAnd [⟨.concept, 2⟩, ⟨.concept, 1⟩])).2

def requests : List (Store × Handle) :=
  [(lit, ⟨.concept, 1⟩), (unlit, ⟨.concept, 2⟩), (both, ⟨.concept, 3⟩), (both, ⟨.concept, 1⟩)]

theorem requests_made :
    both.Requests [⟨.concept, 3⟩, ⟨.concept, 2⟩, ⟨.concept, 1⟩] requests := by
  have none := Store.Requests.start store_reachable
  have first := none.call (.leaf (.conceptPrimitive ⟨0⟩ 0)) (by decide) trivial
  have givenFirst : (Call.run store (.leaf (.conceptPrimitive ⟨0⟩ 0))).1 = [⟨.concept, 1⟩] := by
    decide +kernel
  rw [givenFirst] at first
  have second := (first.request (h := ⟨.concept, 1⟩) (by decide)).call
    (.composite .conceptNot [⟨.concept, 1⟩]) (by decide) trivial
  have givenSecond : (Call.run lit (.composite .conceptNot [⟨.concept, 1⟩])).1
      = [⟨.concept, 2⟩] := by decide +kernel
  rw [← lit, givenSecond] at second
  have third := (second.request (h := ⟨.concept, 2⟩) (by decide)).call
    (.composite .conceptAnd [⟨.concept, 2⟩, ⟨.concept, 1⟩]) (by decide) trivial
  have givenThird : (Call.run unlit
      (.composite .conceptAnd [⟨.concept, 2⟩, ⟨.concept, 1⟩])).1 = [⟨.concept, 3⟩] := by
    decide +kernel
  rw [← unlit, givenThird] at third
  exact (third.request (h := ⟨.concept, 3⟩) (by decide)).request (h := ⟨.concept, 1⟩) (by decide)

theorem states_over {s : Store} (same : s.vocabulary = vocabulary) :
    ∀ state ∈ states, state.Over s.vocabulary := by
  intro state member
  refine ⟨states_made state member, ?_⟩
  simp only [states, List.mem_cons, List.not_mem_nil, or_false] at member
  rw [same]
  rcases member with rfl | rfl <;> decide +kernel

end Lamps

/-- Three vectors are computed for the four requests. -/
theorem Store.Requests.evaluated_lamps :
    ∃ vectors e, (Lamps.requests.mapM fun c => Sampling.vector c.1 c.2).run (.new Lamps.states)
      = (.ok vectors, e) ∧ e.Exact Lamps.states Lamps.requests vectors ∧ e.cache.size = 3 := by
  obtain ⟨vectors, e, run, exact⟩ :=
    Lamps.requests_made.evaluated (Lamps.states_over (by decide +kernel))
  have size : ((Lamps.requests.mapM fun c => Sampling.vector c.1 c.2).run
      (.new Lamps.states)).2.cache.size = 3 := by decide +kernel
  rw [run] at size
  exact ⟨vectors, e, run, exact, size⟩

end PlanFeatures
