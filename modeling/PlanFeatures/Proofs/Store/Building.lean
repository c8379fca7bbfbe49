import PlanFeatures.Proofs.Outcome
import PlanFeatures.Proofs.Store.WellFormed
import PlanFeatures.Store.Reader

/-!
# Building keeps stores well formed

Every constructor, given handles that the store has, leaves a well-formed store that
extends the one it started from, and gives a handle that this store has.  A refused
constructor leaves the store as it was.
-/

namespace PlanFeatures

/-- Every error but the one of an operand that the store does not have, which no caller can
bring about. -/
def ExpressionError.Regular (error : ExpressionError) : Prop := ∀ h, error ≠ .foreignOperand h

/-- A well-formed store that has grown out of another one. -/
structure Store.Later (s s' : Store) : Prop where
  wellFormed : s'.WellFormed
  grown : s.Extends s'
  unchanged : s'.size ≤ s.size → s' = s

namespace Store

theorem WellFormed.later {s : Store} (wf : s.WellFormed) : s.Later s := ⟨wf, .refl s, fun _ => rfl⟩

theorem Later.trans {s t u : Store} (st : s.Later t) (tu : t.Later u) : s.Later u where
  wellFormed := tu.wellFormed
  grown := st.grown.trans tu.grown
  unchanged bound := by
    obtain rfl := tu.unchanged (Nat.le_trans bound st.grown.size_le)
    exact st.unchanged bound

theorem Inserted.later {s s' : Store} {node : Node} {h : Handle} (added : s.Inserted node h s') :
    s.Later s' :=
  ⟨added.wellFormed, added.grown, added.unchanged⟩

theorem Has.contains {s : Store} {h : Handle} (has : s.Has h) : s.contains h = true := by
  simpa [Store.contains] using has.bound

theorem own_operands {s : Store} {node : Node} (operands : ∀ h ∈ node.operands, s.Has h) :
    (node.operands.find? fun h => !s.contains h) = none := by
  rw [List.find?_eq_none]
  intro h member
  simp [(operands h member).contains]

end Store

/-! ## Nodes of rules -/

/-- The node of a rule has the given operands and is over every vocabulary. -/
theorem Node.ofOperands?_spec {rule : Rule} {operands : List Handle} {node : Node}
    (made : Node.ofOperands? rule operands = some node) (v : Vocabulary) :
    node.operands = operands ∧ node.Declared v := by
  match operands with
  | [] => cases made
  | [a] =>
    obtain ⟨op, found, rfl⟩ := Option.map_eq_some_iff.mp made
    have fits := List.find?_some found
    simp only [decide_eq_true_eq] at fits
    refine ⟨?_, UnaryOp.declared_of_mem_plain (List.mem_of_find?_eq_some found)⟩
    simp only [Node.operands, fits.2]
  | [a, b] =>
    obtain ⟨op, found, rfl⟩ := Option.map_eq_some_iff.mp made
    have fits := List.find?_some found
    simp only [decide_eq_true_eq] at fits
    refine ⟨?_, trivial⟩
    simp only [Node.operands, fits.2.1, fits.2.2]
  | [⟨k, a⟩, ⟨l, r⟩, ⟨m, b⟩] =>
    simp only [Node.ofOperands?] at made
    split at made
    next fits =>
      cases made
      obtain ⟨_, rfl, rfl, rfl⟩ := fits
      exact ⟨rfl, trivial⟩
    next => cases made
  | _ :: _ :: _ :: _ :: _ => cases made

namespace Build

variable {s : Store}

theorem run_intern {node : Node} (operands : ∀ h ∈ node.operands, s.Has h) :
    (intern node).run s = (.ok (s.insert node).1, (s.insert node).2) := by
  simp only [intern, run_get_bind, Store.own_operands operands]
  rfl

theorem intern_outcome (wf : s.WellFormed) {node : Node} (operands : ∀ h ∈ node.operands, s.Has h)
    (declared : node.Declared s.vocabulary) :
    Outcome (intern node) s (fun h s' => s.Inserted node h s') (fun _ _ => False) := by
  rw [Outcome, run_intern operands]
  exact wf.insert operands declared

theorem declared_outcome (p : PredicateId) :
    Outcome (declared p) s
      (fun predicate s' => s' = s ∧ s.vocabulary.predicate? p = some predicate)
      (fun error s' => s' = s ∧ error.Regular) := by
  simp only [declared, Outcome.bind_iff, Outcome.get_iff]
  cases found : s.vocabulary.predicate? p with
  | none => exact ⟨rfl, by rintro h ⟨⟩⟩
  | some predicate => exact ⟨rfl, rfl⟩

theorem checkPosition_outcome (predicate : Predicate) (i : Nat) :
    Outcome (checkPosition predicate i) s (fun _ s' => s' = s ∧ i < predicate.arity)
      (fun error s' => s' = s ∧ error.Regular) := by
  unfold checkPosition
  split
  next inside => exact ⟨rfl, inside⟩
  next => exact ⟨rfl, by rintro h ⟨⟩⟩

/-- What is asked of the symbols of a leaf. -/
def checkLeaf : Leaf → Build Unit
  | .conceptPrimitive p i => do checkPosition (← declared p) i
  | .rolePrimitive p i j => do
    let predicate ← declared p
    checkPosition predicate i
    checkPosition predicate j
  | .booleanNullary p => do
    let predicate ← declared p
    if predicate.arity ≠ 0 then throw (.invalidArity predicate .booleanPrimitive)
  | .conceptOneOf k => do
    if ((← get).vocabulary.constant? k).isNone then throw (.unknownConstant k.text)
  | .conceptBot | .conceptTop | .roleTop => return ()

theorem leaf_eq (l : Leaf) : leaf l = (do checkLeaf l; intern (.leaf l)) := by
  cases l with
  | conceptPrimitive p i | rolePrimitive p i j => simp only [leaf, checkLeaf, bind_assoc]
  | booleanNullary p =>
    simp only [leaf, checkLeaf, bind_assoc]
    congr
    funext predicate
    split <;> rfl
  | conceptOneOf k =>
    simp only [leaf, checkLeaf, bind_assoc]
    congr
    funext store
    split <;> rfl
  | conceptBot | conceptTop | roleTop => rfl

/-- What the checks of a leaf let pass is declared. -/
theorem checkLeaf_outcome (l : Leaf) :
    Outcome (checkLeaf l) s (fun _ s' => s' = s ∧ l.Declared s.vocabulary)
      (fun error s' => s' = s ∧ error.Regular) := by
  cases l with
  | conceptPrimitive p i =>
    simp only [checkLeaf, Outcome.bind_iff]
    refine (declared_outcome p).imp_done ?_
    rintro predicate _ ⟨rfl, found⟩
    refine (checkPosition_outcome predicate i).imp_done ?_
    rintro _ _ ⟨rfl, inside⟩
    exact ⟨rfl, predicate, found, inside⟩
  | rolePrimitive p i j =>
    simp only [checkLeaf, Outcome.bind_iff]
    refine (declared_outcome p).imp_done ?_
    rintro predicate _ ⟨rfl, found⟩
    refine (checkPosition_outcome predicate i).imp_done ?_
    rintro _ _ ⟨rfl, first⟩
    refine (checkPosition_outcome predicate j).imp_done ?_
    rintro _ _ ⟨rfl, second⟩
    exact ⟨rfl, predicate, found, first, second⟩
  | booleanNullary p =>
    simp only [checkLeaf, Outcome.bind_iff]
    refine (declared_outcome p).imp_done ?_
    rintro predicate _ ⟨rfl, found⟩
    split
    next => exact ⟨rfl, by rintro h ⟨⟩⟩
    next nullary => exact ⟨rfl, predicate, found, by simpa using nullary⟩
  | conceptOneOf k =>
    simp only [checkLeaf, Outcome.bind_iff, Outcome.get_iff]
    split
    next => exact ⟨rfl, by rintro h ⟨⟩⟩
    next known => exact ⟨rfl, Option.ne_none_iff_exists'.mp (by simpa using known)⟩
  | conceptBot | conceptTop | roleTop => exact ⟨rfl, trivial⟩

theorem leaf_outcome (wf : s.WellFormed) (l : Leaf) :
    Outcome (leaf l) s (fun h s' => s.Inserted (.leaf l) h s')
      (fun error s' => s' = s ∧ error.Regular) := by
  rw [leaf_eq, Outcome.bind_iff]
  refine (checkLeaf_outcome l).imp_done ?_
  rintro _ s' ⟨rfl, declared⟩
  have operands : ∀ h ∈ (Node.leaf l).operands, s'.Has h := by
    intro h member
    cases member
  exact (intern_outcome wf operands declared).imp_total fun _ _ added => added

theorem leaf_given (wf : s.WellFormed) (l : Leaf) :
    Outcome (leaf l) s (fun h s' => s.Later s' ∧ s'.Has h) (fun _ s' => s' = s) :=
  (leaf_outcome wf l).imp (fun _ _ added => ⟨added.later, added.has⟩) fun _ _ refused => refused.1

theorem primitive_outcome (wf : s.WellFormed) (p : PredicateId) (kind : Kind) :
    Outcome (primitive p kind) s (fun h s' => s.Later s' ∧ s'.Has h) (fun _ s' => s' = s) := by
  simp only [primitive, Outcome.bind_iff]
  refine (declared_outcome p).imp ?_ fun _ _ refused => refused.1
  rintro predicate _ ⟨rfl, _⟩
  cases kind with
  | concept | role | boolean =>
    dsimp only
    split
    next => exact leaf_given wf _
    next => rfl
  | numerical => rfl

theorem projection_outcome (wf : s.WellFormed) {role : Handle} (has : s.Has role) (i : Nat) :
    Outcome (projection role i) s (fun h s' => s.Later s' ∧ s'.Has h) (fun _ s' => s' = s) := by
  by_cases isRole : role.kind = .role
  · by_cases outside : 1 < i
    · simp only [projection, isRole, ne_eq, not_true_eq_false, if_false, if_pos outside]
      rfl
    · have operand : ∀ h ∈ (Node.unary (.conceptProjection i) role.index).operands, s.Has h := by
        intro h member
        rw [List.mem_singleton.mp member]
        obtain ⟨k, r⟩ := role
        subst isRole
        exact has
      simp only [projection, isRole, ne_eq, not_true_eq_false, if_false, if_neg outside]
      exact (intern_outcome wf operand (Nat.not_lt.mp outside)).imp_total
        fun _ _ added => ⟨added.later, added.has⟩
  · simp only [projection, ne_eq, isRole, not_false_eq_true, if_true]
    rfl

theorem composite_outcome (wf : s.WellFormed) (rule : Rule) {operands : List Handle}
    (has : ∀ h ∈ operands, s.Has h) :
    Outcome (composite rule operands) s (fun h s' => s.Later s' ∧ s'.Has h)
      (fun _ s' => s' = s) := by
  unfold composite
  split
  next => rfl
  next =>
    split
    next node made =>
      obtain ⟨same, declared⟩ := Node.ofOperands?_spec made s.vocabulary
      exact (intern_outcome wf (same ▸ has) declared).imp_total
        fun _ _ added => ⟨added.later, added.has⟩
    next => rfl

/-- What building from a text may leave behind. -/
abbrev Built (s : Store) (m : Build Handle) : Prop :=
  Outcome m s (fun h s' => s.Later s' ∧ s'.Has h) (fun _ s' => s.Later s')

/-- A constructor that leaves the store alone when it fails. -/
theorem built_of_outcome {m : Build Handle} (wf : s.WellFormed)
    (outcome : Outcome m s (fun h s' => s.Later s' ∧ s'.Has h) (fun _ s' => s' = s)) :
    Built s m :=
  outcome.imp (fun _ _ built => built) (fun _ _ same => same ▸ wf.later)

end Build
end PlanFeatures
