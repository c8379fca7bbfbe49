import PlanFeatures.Proofs.Domain.Made
import PlanFeatures.Proofs.Store.Trees
import PlanFeatures.Proofs.Strict.Extension
import PlanFeatures.Sample.Evaluator

/-!
# Strict evaluation

A node is evaluated over operands that come with their numbers of objects, and every
operation checks that these are the same.  When the evaluation over operands of the state's
own number of objects succeeds, the strict evaluation gives its result.
-/

namespace PlanFeatures.Strict

/-! ## Atoms -/

/-- Every atom that is true. -/
def trueAtoms (s : State) : Except Fault (List Atom) :=
  (s.atoms ++ s.problem.staticAtoms).mapM fun a => found (.noSuchAtom a) (s.problem.atom? a)

/-- The true atoms of a predicate. -/
def atomsOf (s : State) (p : PredicateId) : Except Fault (List Atom) := do
  return (← trueAtoms s).filter fun a => a.predicate = p

/-- Number of the object at a position of an atom. -/
def objectAt (a : Atom) (i : Nat) : Except Fault Nat := do
  return (← found (.noSuchPosition a i) a.objects[i]?).index

theorem atomsOf_ok {s : State} (made : s.Made) (p : PredicateId) :
    atomsOf s p = .ok (s.atomsOf p) := by
  have all : trueAtoms s = .ok s.trueAtoms := mapM_found_ok made.atom?
  rw [atomsOf, bind_ok all]
  rfl

theorem objectAt_ok {s : State} {a : Atom} {i : Nat} {o : Fin s.objectCount}
    (here : s.objectAt a i = .ok o) : objectAt a i = .ok o.val := by
  unfold State.objectAt at here
  split at here
  next => cases here
  next there =>
    split at here
    next =>
      cases here
      rw [objectAt, bind_ok (found_some there)]
      rfl
    next => cases here

/-! ## Nodes -/

/-- A set as what a concept denotes. -/
def ofSet (s : SizedSet) : SizedExtension := ⟨s.size, .concept s.set⟩

/-- A relation as what a role denotes. -/
def ofRelation (r : SizedRelation) : SizedExtension := ⟨r.size, .role r.relation⟩

/-- Inserts the object at a position of an atom. -/
def insertObject (i : Nat) (set : SizedSet) (a : Atom) : Except Fault SizedSet := do
  return (← sized (set.add (← objectAt a i))).2

/-- Inserts the objects at two positions of an atom. -/
def insertPair (i j : Nat) (relation : SizedRelation) (a : Atom) : Except Fault SizedRelation := do
  return (← sized (relation.add (← objectAt a i) (← objectAt a j))).2

section
variable (s : State)

/-- The extension of an expression without operands. -/
def leaf : Leaf → Except Fault SizedExtension
  | .conceptPrimitive p i => do
    return ofSet (← (← atomsOf s p).foldlM (insertObject i) (.empty s.objectCount))
  | .conceptBot => return ofSet (.empty s.objectCount)
  | .conceptTop => return ofSet (.full s.objectCount)
  | .conceptOneOf k => do
    let name ← found (.noSuchConstant k) (s.problem.vocabulary.constant? k)
    let object := (s.problem.findObject? name).toList.map ObjectId.index
    return ofSet (← insertAll (.empty s.objectCount) object)
  | .rolePrimitive p i j => do
    return ofRelation (← (← atomsOf s p).foldlM (insertPair i j) (.empty s.objectCount))
  | .roleTop => return ofRelation (.full s.objectCount)
  | .booleanNullary p => return ⟨s.objectCount, .boolean !(← atomsOf s p).isEmpty⟩

variable (operand : Handle → Except Fault SizedExtension)

/-- The set that a concept denotes. -/
def operandSet (i : Nat) : Except Fault SizedSet := do
  match ← operand ⟨.concept, i⟩ with
  | ⟨n, .concept set⟩ => return ⟨n, set⟩
  | _ => throw (.otherKind ⟨.concept, i⟩)

/-- The relation that a role denotes. -/
def operandRelation (i : Nat) : Except Fault SizedRelation := do
  match ← operand ⟨.role, i⟩ with
  | ⟨n, .role relation⟩ => return ⟨n, relation⟩
  | _ => throw (.otherKind ⟨.role, i⟩)

/-- The extension of an operator applied to the operand with an index. -/
def unaryOp (op : UnaryOp) (a : Nat) : Except Fault SizedExtension := do
  match op with
  | .conceptNot => return ofSet (← operandSet operand a).compl
  | .conceptProjection position =>
    let r ← operandRelation operand a
    let objects := r.relation.pairs.map fun (a, b) => if position = 0 then a else b
    return ofSet (← insertAll (.empty s.objectCount) (objects.map Fin.val))
  | .roleInverse => return ofRelation (← operandRelation operand a).inverse
  | .roleNot => return ofRelation (← operandRelation operand a).compl
  | .roleIdentity => return ofRelation (.identity (← operandSet operand a))
  | .roleClosure => return ofRelation (← operandRelation operand a).closure
  | .roleReflexiveClosure => return ofRelation (← operandRelation operand a).reflexiveClosure
  | .emptyConcept => return ⟨s.objectCount, .boolean (← operandSet operand a).set.isEmpty⟩
  | .emptyRole => return ⟨s.objectCount, .boolean (← operandRelation operand a).relation.isEmpty⟩
  | .countConcept =>
    return ⟨s.objectCount, .numerical (← operandSet operand a).set.card.toUInt32⟩
  | .countRole =>
    return ⟨s.objectCount, .numerical (← operandRelation operand a).relation.card.toUInt32⟩

/-- The extension of an operator applied to the operands with two indices. -/
def binaryOp (op : BinaryOp) (a b : Nat) : Except Fault SizedExtension := do
  match op with
  | .conceptAnd =>
    return ofSet (← sized ((← operandSet operand a).inter (← operandSet operand b)))
  | .conceptOr =>
    return ofSet (← sized ((← operandSet operand a).union (← operandSet operand b)))
  | .conceptDiff =>
    return ofSet (← sized ((← operandSet operand a).diff (← operandSet operand b)))
  | .conceptSome =>
    let r ← operandRelation operand a
    let c ← operandSet operand b
    return ofSet (← filter s.objectCount fun x => do sized ((← successors r x).intersects c))
  | .conceptAll =>
    let r ← operandRelation operand a
    let c ← operandSet operand b
    return ofSet (← filter s.objectCount fun x => do sized ((← successors r x).isSubset c))
  | .conceptEqual =>
    let r ← operandRelation operand a
    let t ← operandRelation operand b
    return ofSet (← filter s.objectCount fun x =>
      return decide ((← successors r x) = (← successors t x)))
  | .conceptSubset =>
    let r ← operandRelation operand a
    let t ← operandRelation operand b
    return ofSet (← filter s.objectCount fun x => do
      sized ((← successors r x).isSubset (← successors t x)))
  | .roleAnd =>
    return ofRelation
      (← sized ((← operandRelation operand a).inter (← operandRelation operand b)))
  | .roleOr =>
    return ofRelation
      (← sized ((← operandRelation operand a).union (← operandRelation operand b)))
  | .roleDiff =>
    return ofRelation
      (← sized ((← operandRelation operand a).diff (← operandRelation operand b)))
  | .roleCompose =>
    return ofRelation
      (← sized ((← operandRelation operand a).compose (← operandRelation operand b)))
  | .roleRestrict =>
    return ofRelation
      (← sized ((← operandRelation operand a).restrict (← operandSet operand b)))
  | .roleClosureThrough =>
    return ofRelation
      (← sized ((← operandRelation operand a).closureThrough (← operandSet operand b)))
  | .inclusionConcept =>
    let included ← sized ((← operandSet operand a).isSubset (← operandSet operand b))
    return ⟨s.objectCount, .boolean included⟩
  | .inclusionRole =>
    let included ← sized ((← operandRelation operand a).isSubset (← operandRelation operand b))
    return ⟨s.objectCount, .boolean included⟩

/-- The extension of a node. -/
def denote : Node → Except Fault SizedExtension
  | .leaf l => leaf s l
  | .unary op a => unaryOp s operand op a
  | .binary op a b => binaryOp s operand op a b
  | .distance a r b => do
    let source ← operandSet operand a
    let relation ← operandRelation operand r
    let target ← operandSet operand b
    return ⟨s.objectCount, .numerical (← distance source relation target)⟩

end

section
variable {s : State}

theorem insertObject_ok {a : Atom} {i : Nat} {set set' : ObjectSet s.objectCount}
    (step : (do return set.insert (← s.objectAt a i)) = Except.ok (ε := EvalError) set') :
    insertObject i ⟨s.objectCount, set⟩ a = .ok ⟨s.objectCount, set'⟩ := by
  obtain ⟨o, here, rest⟩ := of_bind_eq_ok step
  cases rest
  rw [insertObject, bind_ok (objectAt_ok here), SizedSet.add_fin]
  rfl

theorem insertPair_ok {a : Atom} {i j : Nat} {relation relation' : Relation s.objectCount}
    (step : (do return relation.insert (← s.objectAt a i) (← s.objectAt a j))
      = Except.ok (ε := EvalError) relation') :
    insertPair i j ⟨s.objectCount, relation⟩ a = .ok ⟨s.objectCount, relation'⟩ := by
  obtain ⟨o, first, rest⟩ := of_bind_eq_ok step
  obtain ⟨q, second, rest⟩ := of_bind_eq_ok rest
  cases rest
  rw [insertPair, bind_ok (objectAt_ok first), bind_ok (objectAt_ok second), SizedRelation.add_fin]
  rfl

theorem leaf_ok (made : s.Made) {l : Leaf} {d : Extension s.objectCount}
    (value : l.denote s = .ok d) : leaf s l = .ok ⟨s.objectCount, d⟩ := by
  cases l with
  | conceptPrimitive p i =>
    obtain ⟨set, loop, rest⟩ := of_bind_eq_ok value
    cases rest
    have strict := foldlM_of_ok (SizedSet.mk s.objectCount) insertObject_ok loop
    rw [leaf, bind_ok (atomsOf_ok made p)]
    exact bind_ok strict _
  | rolePrimitive p i j =>
    obtain ⟨relation, loop, rest⟩ := of_bind_eq_ok value
    cases rest
    have strict := foldlM_of_ok (SizedRelation.mk s.objectCount) insertPair_ok loop
    rw [leaf, bind_ok (atomsOf_ok made p)]
    exact bind_ok strict _
  | conceptOneOf k =>
    simp only [Leaf.denote, Problem.constantObject?] at value
    cases known : s.problem.vocabulary.constant? k with
    | none =>
      rw [known] at value
      cases value
    | some name =>
      simp only [known, Option.isNone_some, Bool.false_eq_true, if_false, Option.bind_some,
        Option.bind_eq_bind] at value
      rw [leaf, bind_ok (found_some known)]
      cases object : s.problem.findObject? name with
      | none =>
        rw [object] at value
        cases value
        rfl
      | some o =>
        simp only [object] at value
        have inside : o.index < s.objectCount := Problem.findObject?_lt object
        rw [dif_pos inside] at value
        cases value
        have inserted := insertAll_ok (∅ : ObjectSet s.objectCount) [⟨o.index, inside⟩]
        exact bind_ok inserted _
  | conceptBot | conceptTop | roleTop =>
    cases value
    rfl
  | booleanNullary p =>
    cases value
    rw [leaf, bind_ok (atomsOf_ok made p)]
    rfl

/-! ## Operators -/

variable {operand : Handle → Except Fault SizedExtension}
  {plain : Handle → Except EvalError (Extension s.objectCount)}

theorem operandSet_ok {i : Nat} {set : ObjectSet s.objectCount}
    (agrees : ∀ d, plain ⟨.concept, i⟩ = .ok d → operand ⟨.concept, i⟩ = .ok ⟨s.objectCount, d⟩)
    (here : PlanFeatures.operandSet s plain i = .ok set) :
    operandSet operand i = .ok ⟨s.objectCount, set⟩ := by
  obtain ⟨d, value, rest⟩ := of_bind_eq_ok here
  rw [operandSet, bind_ok (agrees d value)]
  cases d with
  | concept _ =>
    cases rest
    rfl
  | role _ | boolean _ | numerical _ => cases rest

theorem operandRelation_ok {i : Nat} {relation : Relation s.objectCount}
    (agrees : ∀ d, plain ⟨.role, i⟩ = .ok d → operand ⟨.role, i⟩ = .ok ⟨s.objectCount, d⟩)
    (here : PlanFeatures.operandRelation s plain i = .ok relation) :
    operandRelation operand i = .ok ⟨s.objectCount, relation⟩ := by
  obtain ⟨d, value, rest⟩ := of_bind_eq_ok here
  rw [operandRelation, bind_ok (agrees d value)]
  cases d with
  | role _ =>
    cases rest
    rfl
  | concept _ | boolean _ | numerical _ => cases rest

theorem unaryOp_ok {op : UnaryOp} {a : Nat} {d : Extension s.objectCount}
    (agrees : ∀ d, plain ⟨op.operand, a⟩ = .ok d →
      operand ⟨op.operand, a⟩ = .ok ⟨s.objectCount, d⟩)
    (value : op.denote s plain a = .ok d) : unaryOp s operand op a = .ok ⟨s.objectCount, d⟩ := by
  cases op with
  | conceptNot | roleIdentity | emptyConcept | countConcept =>
    obtain ⟨set, here, rest⟩ := of_bind_eq_ok value
    cases rest
    rw [unaryOp, bind_ok (operandSet_ok agrees here)]
    rfl
  | roleInverse | roleNot | roleClosure | roleReflexiveClosure | emptyRole | countRole =>
    obtain ⟨relation, here, rest⟩ := of_bind_eq_ok value
    cases rest
    rw [unaryOp, bind_ok (operandRelation_ok agrees here)]
    rfl
  | conceptProjection position =>
    obtain ⟨relation, here, rest⟩ := of_bind_eq_ok value
    cases rest
    have inserted := insertAll_ok (∅ : ObjectSet s.objectCount)
      (relation.pairs.map fun (a, b) => if position = 0 then a else b)
    rw [foldl_insert_pairs] at inserted
    rw [unaryOp, bind_ok (operandRelation_ok agrees here)]
    exact bind_ok inserted _

theorem binaryOp_ok {op : BinaryOp} {a b : Nat} {d : Extension s.objectCount}
    (left : ∀ d, plain ⟨op.left, a⟩ = .ok d → operand ⟨op.left, a⟩ = .ok ⟨s.objectCount, d⟩)
    (right : ∀ d, plain ⟨op.right, b⟩ = .ok d → operand ⟨op.right, b⟩ = .ok ⟨s.objectCount, d⟩)
    (value : op.denote s plain a b = .ok d) :
    binaryOp s operand op a b = .ok ⟨s.objectCount, d⟩ := by
  cases op with
  | conceptAnd | conceptOr | conceptDiff | inclusionConcept =>
    obtain ⟨c, first, rest⟩ := of_bind_eq_ok value
    obtain ⟨e, second, rest⟩ := of_bind_eq_ok rest
    cases rest
    rw [binaryOp, bind_ok (operandSet_ok left first), bind_ok (operandSet_ok right second)]
    simp only [SizedSet.inter_same, SizedSet.union_same, SizedSet.diff_same,
      SizedSet.isSubset_same]
    rfl
  | conceptSome | conceptAll =>
    obtain ⟨r, first, rest⟩ := of_bind_eq_ok value
    obtain ⟨c, second, rest⟩ := of_bind_eq_ok rest
    cases rest
    rw [binaryOp, bind_ok (operandRelation_ok left first), bind_ok (operandSet_ok right second)]
    refine bind_ok (filter_ok fun x => ?_) _
    rw [bind_ok (successors_fin r x)]
    simp only [SizedSet.intersects_same, SizedSet.isSubset_same]
    rfl
  | conceptEqual | conceptSubset =>
    obtain ⟨r, first, rest⟩ := of_bind_eq_ok value
    obtain ⟨t, second, rest⟩ := of_bind_eq_ok rest
    cases rest
    rw [binaryOp, bind_ok (operandRelation_ok left first),
      bind_ok (operandRelation_ok right second)]
    refine bind_ok (filter_ok fun x => ?_) _
    rw [bind_ok (successors_fin r x), bind_ok (successors_fin t x)]
    simp [pure, Except.pure]
  | roleAnd | roleOr | roleDiff | roleCompose | inclusionRole =>
    obtain ⟨r, first, rest⟩ := of_bind_eq_ok value
    obtain ⟨t, second, rest⟩ := of_bind_eq_ok rest
    cases rest
    rw [binaryOp, bind_ok (operandRelation_ok left first),
      bind_ok (operandRelation_ok right second)]
    simp only [SizedRelation.inter_same, SizedRelation.union_same, SizedRelation.diff_same,
      SizedRelation.compose_same, SizedRelation.isSubset_same]
    rfl
  | roleRestrict | roleClosureThrough =>
    obtain ⟨r, first, rest⟩ := of_bind_eq_ok value
    obtain ⟨c, second, rest⟩ := of_bind_eq_ok rest
    cases rest
    rw [binaryOp, bind_ok (operandRelation_ok left first), bind_ok (operandSet_ok right second)]
    simp only [SizedRelation.restrict_same, SizedRelation.closureThrough_same]
    rfl

/-- An evaluation that succeeds does so strictly, when what is known of the operands is over
the objects of the state. -/
theorem denote_ok (made : s.Made) {node : Node} {d : Extension s.objectCount}
    (agrees : ∀ h ∈ node.operands, ∀ d, plain h = .ok d → operand h = .ok ⟨s.objectCount, d⟩)
    (value : node.denote s plain = .ok d) : denote s operand node = .ok ⟨s.objectCount, d⟩ := by
  cases node with
  | leaf l => exact leaf_ok made value
  | unary op a => exact unaryOp_ok (agrees _ (Node.operand_mem op a)) value
  | binary op a b =>
    exact binaryOp_ok (agrees _ (Node.left_mem op a b)) (agrees _ (Node.right_mem op a b)) value
  | distance a r b =>
    obtain ⟨source, first, rest⟩ := of_bind_eq_ok value
    obtain ⟨relation, second, rest⟩ := of_bind_eq_ok rest
    obtain ⟨target, third, rest⟩ := of_bind_eq_ok rest
    cases rest
    rw [denote, bind_ok (operandSet_ok (agrees _ (Node.source_mem a r b)) first),
      bind_ok (operandRelation_ok (agrees _ (Node.role_mem a r b)) second),
      bind_ok (operandSet_ok (agrees _ (Node.target_mem a r b)) third),
      bind_ok (distance_ok source relation target)]
    rfl

end

/-! ## Vectors -/

/-- What an expression whose vector is known denotes in the state with a number. -/
def known (cache : Cache ExtensionVector) (i : Nat) (h : Handle) : Except Fault SizedExtension := do
  let vector ← found (.notEvaluated h) (cache.peek? h.index)
  found (.noSuchState i) vector[i]?

/-- The vector of a node whose operands have known vectors. -/
def compute (e : Evaluator) (node : Node) : Except Fault ExtensionVector :=
  e.states.zipIdx.mapM fun (s, i) => denote s (known e.cache i) node

theorem known_ok {cache : Cache ExtensionVector} {s : State} {i : Nat} {h : Handle}
    {d : Extension s.objectCount} (value : Evaluator.known cache s i h = .ok d) :
    known cache i h = .ok ⟨s.objectCount, d⟩ := by
  unfold Evaluator.known at value
  cases peeked : cache.peek? h.index with
  | none =>
    rw [peeked] at value
    cases value
  | some vector =>
    rw [peeked, Option.bind_some] at value
    rw [known, bind_ok (found_some peeked)]
    cases there : vector[i]? with
    | none =>
      rw [there] at value
      cases value
    | some entry =>
      rw [there] at value
      obtain ⟨n, x⟩ := entry
      dsimp only at value
      split at value
      next size =>
        subst size
        cases value
        exact found_some rfl
      next => cases value

theorem compute_ok {e : Evaluator} (made : ∀ s ∈ e.states, s.Made) {node : Node}
    {vector : ExtensionVector} (value : e.compute node = .ok vector) :
    compute e node = .ok vector := by
  refine mapM_of_ok ?_ value
  rintro ⟨s, i⟩ entry member here
  obtain ⟨d, denoted, rest⟩ := of_bind_eq_ok here
  cases rest
  have state := made s (List.mem_of_getElem? (List.mk_mem_zipIdx_iff_getElem?.mp member))
  exact denote_ok state (fun h _ d => known_ok) denoted

end PlanFeatures.Strict
