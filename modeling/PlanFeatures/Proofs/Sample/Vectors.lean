import PlanFeatures.Proofs.Meaning.Evaluation

/-!
# Vectors of trees

The vector of a tree over a sample holds what the tree denotes in each state.  Two
trees have one vector when they agree, that is, denote the same in every state.
Operators respect agreement.  An evaluator that knows the vectors of the operands
computes the vector of a node's tree.
-/

namespace PlanFeatures

/-! ## Loops that collect results -/

theorem mapM_congr {α β : Type} {m : Type → Type} [Monad m] [LawfulMonad m] {f g : α → m β}
    {as : List α} (same : ∀ a ∈ as, f a = g a) : as.mapM f = as.mapM g := by
  induction as with
  | nil => rfl
  | cons a rest ih =>
    rw [List.mapM_cons, List.mapM_cons, same a List.mem_cons_self,
      ih fun b member => same b (List.mem_cons_of_mem _ member)]

section
variable {α β ε : Type} {f : α → Except ε β} {as : List α}

theorem mapM_ok (steps : ∀ a ∈ as, ∃ b, f a = .ok b) : ∃ bs, as.mapM f = .ok bs := by
  induction as with
  | nil => exact ⟨[], rfl⟩
  | cons a rest ih =>
    obtain ⟨b, first⟩ := steps a List.mem_cons_self
    obtain ⟨bs, more⟩ := ih fun a member => steps a (List.mem_cons_of_mem _ member)
    refine ⟨b :: bs, ?_⟩
    rw [List.mapM_cons, first, more]
    rfl

/-- The results of a loop stand at the places of the items. -/
theorem getElem?_of_mapM {bs : List β} (whole : as.mapM f = .ok bs) :
    bs.length = as.length ∧
      ∀ (i : Nat) (a : α), as[i]? = some a → ∃ b, f a = .ok b ∧ bs[i]? = some b := by
  induction as generalizing bs with
  | nil =>
    cases whole
    exact ⟨rfl, fun i a found => by simp at found⟩
  | cons a rest ih =>
    rw [List.mapM_cons] at whole
    cases first : f a with
    | error e => rw [first] at whole; cases whole
    | ok b =>
      cases more : rest.mapM f with
      | error e => rw [first, more] at whole; cases whole
      | ok bs' =>
        rw [first, more] at whole
        cases whole
        obtain ⟨length, places⟩ := ih more
        refine ⟨by simp [length], fun i c found => ?_⟩
        cases i with
        | zero => cases found; exact ⟨b, first, rfl⟩
        | succ i => exact places i c found

end

namespace Expr

/-- What the tree denotes in the states of a sample. -/
def vector (states : List State) (e : Expr) : Except EvalError ExtensionVector :=
  states.mapM fun s => return ⟨_, ← e.denote s⟩

/-- The trees denote the same in all states of a sample. -/
def Agree (states : List State) (a b : Expr) : Prop := ∀ s ∈ states, a.denote s = b.denote s

variable {states : List State} {v : Vocabulary}

theorem Agree.symm {a b : Expr} (agree : a.Agree states b) : b.Agree states a :=
  fun s member => (agree s member).symm

theorem Agree.vector_eq {a b : Expr} (agree : a.Agree states b) :
    a.vector states = b.vector states := by
  refine mapM_congr fun s member => ?_
  show (do return (⟨_, ← a.denote s⟩ : SizedExtension)) = _
  rw [agree s member]

/-- The entries of a vector are the extensions in the states. -/
theorem vector_getElem? {e : Expr} {vector : ExtensionVector}
    (whole : e.vector states = .ok vector) :
    vector.length = states.length ∧ ∀ (i : Nat) (s : State), states[i]? = some s →
      ∃ d, e.denote s = .ok d ∧ vector[i]? = some ⟨s.objectCount, d⟩ := by
  obtain ⟨length, places⟩ := getElem?_of_mapM whole
  refine ⟨length, fun i s found => ?_⟩
  obtain ⟨entry, step, there⟩ := places i s found
  cases value : e.denote s with
  | error e => rw [value] at step; cases step
  | ok d =>
    rw [value] at step
    cases step
    exact ⟨d, rfl, there⟩

theorem agree_of_vector {a b : Expr} {vector : ExtensionVector}
    (first : a.vector states = .ok vector) (second : b.vector states = .ok vector) :
    a.Agree states b := by
  intro s member
  obtain ⟨i, found⟩ := List.mem_iff_getElem?.mp member
  obtain ⟨d, valueA, thereA⟩ := (vector_getElem? first).2 i s found
  obtain ⟨e, valueB, thereB⟩ := (vector_getElem? second).2 i s found
  cases thereA.symm.trans thereB
  rw [valueA, valueB]

theorem vector_ok {e : Expr} (sample : ∀ s ∈ states, s.Over v) (formed : e.Over v) :
    ∃ vector, e.vector states = .ok vector := by
  refine mapM_ok fun s member => ?_
  obtain ⟨d, value, _⟩ := denote_ok (sample s member) formed
  exact ⟨⟨_, d⟩, by rw [value]; rfl⟩

theorem Alike.agree {a b : Expr} (alike : Alike a b) (sample : ∀ s ∈ states, s.Over v)
    (formed : a.Over v) : a.Agree states b :=
  fun s member => alike.denote_eq (sample s member) formed

/-! ## Operators respect agreement -/

theorem Agree.unary {a b : Expr} (agree : a.Agree states b) (op : UnaryOp) :
    (unary op a).Agree states (unary op b) := by
  intro s member
  simp only [denote, agree s member]

theorem Agree.binary {a b c d : Expr} (left : a.Agree states c) (right : b.Agree states d)
    (op : BinaryOp) : (binary op a b).Agree states (binary op c d) := by
  intro s member
  simp only [denote, left s member, right s member]

theorem Agree.distance {a r b c q d : Expr} (source : a.Agree states c) (role : r.Agree states q)
    (target : b.Agree states d) : (distance a r b).Agree states (distance c q d) := by
  intro s member
  simp only [denote, source s member, role s member, target s member]

end Expr

/-! ## Evaluators -/

namespace Evaluator

theorem known_eq {cache : Cache ExtensionVector} {states : List State} {h : Handle} {t : Expr}
    {vector : ExtensionVector} (whole : t.vector states = .ok vector)
    (cached : cache.peek? h.index = some vector) {i : Nat} {s : State}
    (found : states[i]? = some s) : known cache s i h = t.denote s := by
  obtain ⟨d, value, there⟩ := (Expr.vector_getElem? whole).2 i s found
  simp only [known, cached, Option.bind_some, there, value]
  rfl

/-- The vector that is computed for a node is that of its tree. -/
theorem compute_eq {e : Evaluator} {v : Vocabulary} (sample : ∀ s ∈ e.states, s.Over v)
    {node : Node} {trees : Nat → Option Expr} {t : Expr} (formed : t.Over v)
    (tree : node.tree? trees = some t)
    (operands : ∀ h ∈ node.operands, ∀ x, trees h.index = some x →
      ∃ vector, e.cache.peek? h.index = some vector ∧ x.vector e.states = .ok vector) :
    e.compute node = t.vector e.states := by
  have whole : t.vector e.states
      = e.states.zipIdx.mapM fun p => return (⟨_, ← t.denote p.1⟩ : SizedExtension) := by
    have items : e.states = e.states.zipIdx.map Prod.fst := (List.zipIdx_map_fst 0 _).symm
    rw [Expr.vector]
    conv => lhs; rw [items]
    rw [List.mapM_map]
    rfl
  -- State by state, since the node is evaluated in each with what is known there.
  rw [whole, compute]
  refine mapM_congr ?_
  rintro ⟨s, i⟩ member
  have found := List.mk_mem_zipIdx_iff_getElem?.mp member
  have here : node.denote s (known e.cache s i) = t.denote s := by
    refine Node.denote_of_tree? (sample s (List.mem_of_getElem? found)) formed tree ?_
    intro h operand x spell
    obtain ⟨_, cached, value⟩ := operands h operand x spell
    exact known_eq value cached found
  show (do return (⟨_, ← node.denote s (known e.cache s i)⟩ : SizedExtension)) = _
  rw [here]

end Evaluator
end PlanFeatures
