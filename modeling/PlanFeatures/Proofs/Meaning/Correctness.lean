import PlanFeatures.Proofs.Domain.Names
import PlanFeatures.Proofs.Meaning.Interpretation
import PlanFeatures.Proofs.Meaning.Trees
import PlanFeatures.Proofs.Store.RoundTrip

/-!
# Evaluation gives the meaning

Every operator on extensions gives what the operator means on the meanings of its operands,
so by induction on the tree an expression denotes its meaning, in every state over the
vocabulary.
-/

namespace PlanFeatures

/-! ## True atoms -/

namespace State
variable {s : State}

theorem holds_iff {p : PredicateId} {objects : List ObjectId} :
    s.Holds p objects ↔ ∃ atom ∈ s.atomsOf p, atom.objects = objects := by
  simp only [Holds, atomsOf, List.mem_filter, mem_trueAtoms, decide_eq_true_eq]
  constructor
  · rintro ⟨a, atom, found, true_in, predicate, same⟩
    exact ⟨atom, ⟨⟨a, found, true_in⟩, predicate⟩, same⟩
  · rintro ⟨atom, ⟨⟨a, found, true_in⟩, predicate⟩, same⟩
    exact ⟨a, atom, found, true_in, predicate, same⟩

theorem objectAt_eq_ok {a : Atom} {i : Nat} {x : Fin s.objectCount} :
    s.objectAt a i = .ok x ↔ a.objects[i]? = some ⟨x⟩ := by
  unfold objectAt
  cases found : a.objects[i]? with
  | none => simp
  | some o =>
    obtain ⟨j⟩ := o
    have inside := x.isLt
    simp only [Option.some.injEq, ObjectId.mk.injEq]
    split
    next => simp [Fin.ext_iff]
    next outside =>
      constructor
      · intro impossible
        cases impossible
      · rintro rfl
        exact absurd inside outside

end State

/-! ## Extensions and meanings -/

section
variable {n : Nat}

theorem Extension.meaning_concept {set : ObjectSet n} {members : Set (Fin n)}
    (same : ∀ x, x ∈ set.toSet ↔ x ∈ members) : (concept set).meaning = .concept members :=
  congrArg Meaning.concept (Set.ext same)

theorem Extension.meaning_role {relation : Relation n} {relates : Fin n → Fin n → Prop}
    (same : ∀ x y, relation.Holds x y ↔ relates x y) : (role relation).meaning = .role relates :=
  congrArg Meaning.role (funext fun x => funext fun y => propext (same x y))

theorem Extension.meaning_boolean {value : Bool} {holds : Prop} (same : value = true ↔ holds) :
    (boolean value).meaning = (.boolean holds : Meaning n) :=
  congrArg Meaning.boolean (propext same)

theorem Extension.meaning_count (k : Nat) :
    (numerical k.toUInt32).meaning = (.numerical (wrapped k) : Meaning n) :=
  congrArg Meaning.numerical UInt32.toNat_ofNat'

end

/-! ## Leaves -/

/-- A loop that collects members: the result has those at the start and those that the
items add. -/
theorem foldlM_collect {α β ι ε : Type} {f : β → α → Except ε β} {mem : β → ι → Prop}
    {adds : α → ι → Prop} {as : List α}
    (steps : ∀ a ∈ as, ∀ b, ∃ b', f b a = .ok b' ∧ ∀ x, mem b' x ↔ mem b x ∨ adds a x) (b : β) :
    ∃ b', as.foldlM f b = .ok b' ∧ ∀ x, mem b' x ↔ mem b x ∨ ∃ a ∈ as, adds a x := by
  induction as generalizing b with
  | nil => exact ⟨b, rfl, fun x => by simp⟩
  | cons a rest ih =>
    obtain ⟨b₁, first, has₁⟩ := steps a List.mem_cons_self b
    obtain ⟨b₂, more, has₂⟩ := ih (fun a member => steps a (List.mem_cons_of_mem _ member)) b₁
    refine ⟨b₂, ?_, fun x => ?_⟩
    · rw [List.foldlM_cons, first]
      exact more
    · rw [has₂, has₁]
      simp [or_assoc]

variable {v : Vocabulary} {s : State}

/-- A constant names exactly one object. -/
theorem State.exists_named (belongs : s.Over v) {k : ConstantId} {name : String}
    (known : v.constant? k = some name) :
    ∃ o : Fin s.objectCount, s.problem.constantObject? k = some ⟨o⟩ ∧
      ∀ x, s.Named k x ↔ x = o := by
  have named := belongs.made.wellNamed
  rw [← belongs.vocabulary] at known
  have listed := named.constants name (Array.mem_of_getElem? known)
  obtain ⟨i, inside, same⟩ := Array.getElem_of_mem listed
  have place : s.problem.objects[i]? = some name := by rw [Array.getElem?_eq_getElem inside, same]
  have found : s.problem.findObject? name = some ⟨i⟩ := by
    rw [Problem.findObject?, named.objects.findIdx? place]
    rfl
  refine ⟨⟨i, inside⟩, by simp [Problem.constantObject?, known, found], fun x => ?_⟩
  constructor
  · rintro ⟨name', known', here⟩
    cases known.symm.trans known'
    exact Fin.ext (named.objects x i name name here place rfl)
  · rintro rfl
    exact ⟨name, known, place⟩

theorem Leaf.denote_meaning {l : Leaf} (belongs : s.Over v) (declared : l.Declared v) :
    ∃ d, l.denote s = .ok d ∧ d.meaning = l.meaning s := by
  cases l with
  | conceptPrimitive p i =>
    obtain ⟨predicate, known, inside⟩ := declared
    rw [← belongs.vocabulary] at known
    have steps : ∀ a ∈ s.atomsOf p, ∀ set : ObjectSet s.objectCount,
        ∃ set' : ObjectSet s.objectCount,
          (do return set.insert (← s.objectAt a i) : Except EvalError _) = .ok set' ∧
          ∀ x, x ∈ set'.toSet ↔ x ∈ set.toSet ∨ a.objects[i]? = some ⟨x⟩ := by
      intro a member set
      obtain ⟨o, found⟩ := State.objectAt_ok belongs.made known inside member
      refine ⟨set.insert o, by rw [found]; rfl, fun x => ?_⟩
      rw [ObjectSet.mem_toSet_insert, ← State.objectAt_eq_ok, found, Except.ok.injEq]
    obtain ⟨set, whole, members⟩ := foldlM_collect steps ∅
    refine ⟨.concept set, by simp only [denote, whole]; rfl, ?_⟩
    refine Extension.meaning_concept fun x => ?_
    rw [members]
    simp [State.holds_iff]
  | rolePrimitive p i j =>
    obtain ⟨predicate, known, first, second⟩ := declared
    rw [← belongs.vocabulary] at known
    have steps : ∀ a ∈ s.atomsOf p, ∀ relation : Relation s.objectCount,
        ∃ relation' : Relation s.objectCount,
          (do return relation.insert (← s.objectAt a i) (← s.objectAt a j) : Except EvalError _)
            = .ok relation' ∧
          ∀ x : Fin s.objectCount × Fin s.objectCount, relation'.Holds x.1 x.2 ↔
            relation.Holds x.1 x.2 ∨
              (a.objects[i]? = some ⟨x.1⟩ ∧ a.objects[j]? = some ⟨x.2⟩) := by
      intro a member relation
      obtain ⟨o, found⟩ := State.objectAt_ok belongs.made known first member
      obtain ⟨q, found'⟩ := State.objectAt_ok belongs.made known second member
      refine ⟨relation.insert o q, by rw [found, found']; rfl, fun x => ?_⟩
      rw [Relation.holds_insert, ← State.objectAt_eq_ok, ← State.objectAt_eq_ok, found, found',
        Except.ok.injEq, Except.ok.injEq, eq_comm, @eq_comm _ x.2]
    obtain ⟨relation, whole, pairs⟩ := foldlM_collect steps ∅
    refine ⟨.role relation, by simp only [denote, whole]; rfl, ?_⟩
    refine Extension.meaning_role fun x y => ?_
    rw [pairs (x, y)]
    simp [State.holds_iff, Relation.Holds, Relation.contains]
  | conceptOneOf k =>
    obtain ⟨name, known⟩ := declared
    obtain ⟨o, found, named⟩ := State.exists_named belongs known
    have declared := known
    rw [← belongs.vocabulary] at declared
    refine ⟨.concept (ObjectSet.insert ∅ o), ?_, ?_⟩
    · simp [denote, declared, found]
      rfl
    · refine Extension.meaning_concept fun x => ?_
      rw [ObjectSet.mem_toSet_insert, Set.mem_ofPred_eq, named]
      simp [eq_comm]
  | conceptBot => exact ⟨.concept ∅, rfl, Extension.meaning_concept fun x => by simp⟩
  | conceptTop => exact ⟨.concept .full, rfl, Extension.meaning_concept fun x => by simp⟩
  | roleTop =>
    exact ⟨.role .full, rfl,
      Extension.meaning_role fun x y => iff_true_intro (Relation.holds_full x y)⟩
  | booleanNullary p =>
    obtain ⟨predicate, known, nullary⟩ := declared
    rw [← belongs.vocabulary] at known
    refine ⟨.boolean !(s.atomsOf p).isEmpty, rfl, ?_⟩
    refine Extension.meaning_boolean ?_
    -- The atoms of a predicate of arity 0 have no objects.
    have bare : ∀ atom ∈ s.atomsOf p, atom.objects = [] := by
      intro atom member
      obtain ⟨fits, rfl⟩ := State.fits_of_mem_atomsOf belongs.made member
      obtain ⟨other, same, length⟩ := fits.predicate
      cases known.symm.trans same
      exact List.eq_nil_of_length_eq_zero (length.trans nullary)
    rw [State.holds_iff, Bool.not_eq_true', List.isEmpty_eq_false_iff_exists_mem]
    constructor
    · rintro ⟨atom, member⟩
      exact ⟨atom, member, bare atom member⟩
    · rintro ⟨atom, member, _⟩
      exact ⟨atom, member⟩

/-! ## Operators -/

theorem UnaryOp.apply_meaning {op : UnaryOp} {d : Extension s.objectCount}
    (kind : d.kind = op.operand) :
    ∃ x, op.apply s d = .ok x ∧ x.meaning = op.meaning d.meaning := by
  cases op <;> cases d <;> simp only [UnaryOp.operand, Extension.kind, reduceCtorEq] at kind <;>
    refine ⟨_, rfl, ?_⟩
  case conceptNot.concept c =>
    exact Extension.meaning_concept fun x => by simp [Extension.meaning, Meaning.set]
  case conceptProjection.role i r =>
    by_cases first : i = 0
    · subst first
      refine Extension.meaning_concept fun x => ?_
      rw [if_pos rfl, ObjectSet.toSet_filter, Set.mem_ofPred_eq, Bool.not_eq_true',
        ← Bool.not_eq_true, ObjectSet.isEmpty_iff_toSet, ← Ne, ← Set.nonempty_iff_ne_empty]
      rfl
    · rw [if_neg first, UnaryOp.meaning, if_neg first]
      refine Extension.meaning_concept fun y => ?_
      rw [Relation.mem_image]
      simp [Extension.meaning, Meaning.relates]
  case roleInverse.role r => exact Extension.meaning_role fun x y => r.holds_inverse x y
  case roleNot.role r => exact Extension.meaning_role fun x y => r.holds_compl x y
  case roleIdentity.concept c =>
    exact Extension.meaning_role fun x y => Relation.holds_identity x y c
  case roleClosure.role r => exact Extension.meaning_role fun x y => Relation.holds_closure
  case roleReflexiveClosure.role r =>
    exact Extension.meaning_role fun x y => Relation.holds_reflexiveClosure
  case emptyConcept.concept c => exact Extension.meaning_boolean ObjectSet.isEmpty_iff_toSet
  case emptyRole.role r => exact Extension.meaning_boolean Relation.isEmpty_iff_holds
  case countConcept.concept c =>
    rw [Extension.meaning_count, ObjectSet.card_eq_ncard]
    rfl
  case countRole.role r =>
    rw [Extension.meaning_count, Relation.card_eq_ncard]
    rfl

theorem BinaryOp.apply_meaning {op : BinaryOp} {d e : Extension s.objectCount}
    (kindLeft : d.kind = op.left) (kindRight : e.kind = op.right) :
    ∃ x, op.apply s d e = .ok x ∧ x.meaning = op.meaning d.meaning e.meaning := by
  cases op <;> cases d <;> simp only [BinaryOp.left, Extension.kind, reduceCtorEq] at kindLeft <;>
    cases e <;> simp only [BinaryOp.right, Extension.kind, reduceCtorEq] at kindRight <;>
    refine ⟨_, rfl, ?_⟩
  case conceptAnd.concept.concept c c' =>
    exact Extension.meaning_concept fun x => by simp [Extension.meaning, Meaning.set]
  case conceptOr.concept.concept c c' =>
    exact Extension.meaning_concept fun x => by simp [Extension.meaning, Meaning.set]
  case conceptDiff.concept.concept c c' =>
    exact Extension.meaning_concept fun x => by simp [Extension.meaning, Meaning.set]
  case conceptSome.role.concept r c =>
    refine Extension.meaning_concept fun x => ?_
    rw [ObjectSet.toSet_filter, Set.mem_ofPred_eq, ObjectSet.intersects_iff_toSet]
    rfl
  case conceptAll.role.concept r c =>
    refine Extension.meaning_concept fun x => ?_
    rw [ObjectSet.toSet_filter, Set.mem_ofPred_eq, ObjectSet.isSubset_iff_toSet]
    rfl
  case conceptEqual.role.role r t =>
    refine Extension.meaning_concept fun x => ?_
    rw [ObjectSet.toSet_filter, Set.mem_ofPred_eq, decide_eq_true_eq,
      Relation.successors_eq_iff_holds]
    rfl
  case conceptSubset.role.role r t =>
    refine Extension.meaning_concept fun x => ?_
    rw [ObjectSet.toSet_filter, Set.mem_ofPred_eq, ObjectSet.isSubset_iff_toSet]
    rfl
  case roleAnd.role.role r t => exact Extension.meaning_role fun x y => r.holds_inter t x y
  case roleOr.role.role r t => exact Extension.meaning_role fun x y => r.holds_union t x y
  case roleDiff.role.role r t => exact Extension.meaning_role fun x y => r.holds_sdiff t x y
  case roleCompose.role.role r t => exact Extension.meaning_role fun x y => r.holds_compose t x y
  case roleRestrict.role.concept r c =>
    exact Extension.meaning_role fun x y => r.holds_restrict x y c
  case roleClosureThrough.role.concept r c =>
    exact Extension.meaning_role fun x y => Relation.holds_closureThrough
  case inclusionConcept.concept.concept c c' =>
    exact Extension.meaning_boolean ObjectSet.isSubset_iff_toSet
  case inclusionRole.role.role r t => exact Extension.meaning_boolean Relation.isSubset_iff_holds

theorem shortest_of_found {n : Nat} {r : Relation n} {source target : Set (Fin n)}
    {result : Option Nat} (found : r.Found source target result) (small : n < UInt32.size) :
    (Relation.distanceWord result).toNat = shortest source r.Holds target := by
  classical
  cases result with
  | none =>
    have apart : ¬ ∃ k, (level r.Holds source k ∩ target).Nonempty := fun ⟨k, joined⟩ =>
      found k joined
    rw [shortest, dif_neg apart, Relation.distanceWord]
  | some steps =>
    obtain ⟨few, joined, first⟩ := found
    have reachable : ∃ k, (level r.Holds source k ∩ target).Nonempty := ⟨steps, joined⟩
    rw [shortest, dif_pos reachable, (Nat.find_eq_iff reachable).mpr ⟨joined, first⟩]
    exact Nat.mod_eq_of_lt (Nat.lt_trans few small)

theorem applyDistance_meaning {d e f : Extension s.objectCount} (kindSource : d.kind = .concept)
    (kindRole : e.kind = .role) (kindTarget : f.kind = .concept)
    (small : s.objectCount < UInt32.size) :
    ∃ x, applyDistance s d e f = .ok x ∧ x.meaning =
      .numerical (shortest d.meaning.set e.meaning.relates f.meaning.set) := by
  cases d <;> simp only [Extension.kind, reduceCtorEq] at kindSource
  cases e <;> simp only [Extension.kind, reduceCtorEq] at kindRole
  cases f <;> simp only [Extension.kind, reduceCtorEq] at kindTarget
  case concept.role.concept source r target =>
    obtain ⟨steps, found, word⟩ := Relation.found_distance source r target
    have same := shortest_of_found found small
    rw [← word] at same
    exact ⟨_, rfl, congrArg Meaning.numerical same⟩

/-! ## Expressions -/

namespace Expr

theorem denote_meaning {e : Expr} (belongs : s.Over v) (small : s.objectCount < UInt32.size)
    (formed : e.Over v) : ∃ d, e.denote s = .ok d ∧ d.kind = e.kind ∧ d.meaning = e.meaning s := by
  -- The kinds are known from evaluation alone; the meanings follow the tree.
  suffices ∃ d, e.denote s = .ok d ∧ d.meaning = e.meaning s by
    obtain ⟨d, value, means⟩ := this
    exact ⟨d, value, kind_of_denote belongs formed value, means⟩
  induction e with
  | leaf l => exact Leaf.denote_meaning belongs formed.declared
  | unary op a iha =>
    obtain ⟨d, value, means⟩ := iha formed.unary
    rw [denote_unary value, meaning, ← means]
    have kind := kind_of_denote belongs formed.unary value
    exact UnaryOp.apply_meaning (kind.trans formed.wellKinded.1)
  | binary op a b iha ihb =>
    obtain ⟨d, left, meansLeft⟩ := iha formed.binary.1
    obtain ⟨e, right, meansRight⟩ := ihb formed.binary.2
    have kindLeft := kind_of_denote belongs formed.binary.1 left
    have kindRight := kind_of_denote belongs formed.binary.2 right
    rw [denote_binary left right, meaning, ← meansLeft, ← meansRight]
    exact BinaryOp.apply_meaning (kindLeft.trans formed.wellKinded.1)
      (kindRight.trans formed.wellKinded.2.1)
  | distance a r b iha ihr ihb =>
    obtain ⟨d, source, meansSource⟩ := iha formed.distance.1
    obtain ⟨e, role, meansRole⟩ := ihr formed.distance.2.1
    obtain ⟨f, target, meansTarget⟩ := ihb formed.distance.2.2
    have kindSource := kind_of_denote belongs formed.distance.1 source
    have kindRole := kind_of_denote belongs formed.distance.2.1 role
    have kindTarget := kind_of_denote belongs formed.distance.2.2 target
    rw [denote_distance source role target, meaning, ← meansSource, ← meansRole, ← meansTarget]
    exact applyDistance_meaning (kindSource.trans formed.wellKinded.1)
      (kindRole.trans formed.wellKinded.2.1) (kindTarget.trans formed.wellKinded.2.2.1) small

end Expr

/-- In every state over its vocabulary, every expression that a store has given out is
evaluated without failure, to something of its kind, which is the meaning of its tree; and a
constant means the one object of its name. -/
theorem Store.Reachable.evaluate_meaning {store : Store} {issued : List Handle}
    (reachable : store.Reachable issued) {h : Handle} (owned : h ∈ issued)
    (belongs : s.Over store.vocabulary) (small : s.objectCount < UInt32.size) :
    (∃ t d, store.tree? h = some t ∧ store.evaluate h s = .ok d ∧ d.kind = h.kind ∧
        d.meaning = t.meaning s) ∧
      ∀ k name, store.vocabulary.constant? k = some name →
        ∃ o : Fin s.objectCount, s.problem.objectName? ⟨o⟩ = some name ∧
          (Expr.leaf (.conceptOneOf k)).meaning s = .concept {o} := by
  obtain ⟨wf, has⟩ := reachable.sound
  constructor
  · obtain ⟨t, stands⟩ := wf.represents (has h owned)
    obtain ⟨d, value, kind, means⟩ := Expr.denote_meaning belongs small stands.formed
    refine ⟨t, d, stands.tree, ?_, kind.trans stands.kind, means⟩
    rw [wf.evaluate_eq belongs (has h owned) stands, value]
  · intro k name known
    obtain ⟨o, _, named⟩ := State.exists_named belongs known
    have single : {x | s.Named k x} = {o} := Set.ext named
    obtain ⟨name', known', here⟩ := (named o).mpr rfl
    rw [belongs.vocabulary, known, Option.some.injEq] at known'
    exact ⟨o, known' ▸ here, congrArg Meaning.concept single⟩

/-! ## A distance between blocks -/

namespace Store.Blocks

/-- The block with a name is on another one. -/
def problem : Problem :=
  match (Problem.new 0 vocabulary).addAtom "on" ["b-1", "b-2"] false with
  | .ok (_, p) => p
  | .error _ => .new 0 vocabulary

theorem problem_made : problem.Made := by
  unfold problem
  split
  next added => exact .atom (.new 0 vocabulary) added
  next => exact .new 0 vocabulary

def state : State := ⟨problem, [⟨0⟩]⟩

def distanceText : String :=
  "n_concept_distance(c_one_of(b-1),r_primitive(on,0,1),c_not(c_one_of(b-1)))"

theorem exists_distance : ∃ s : Store, s.Reachable [⟨.numerical, 4⟩] ∧ s.vocabulary = vocabulary ∧
    s.evaluate ⟨.numerical, 4⟩ state = .ok (.numerical 1) := by
  have read := store_reachable.call (.read distanceText)
    (fun _ member => absurd member List.not_mem_nil) trivial
  have issued : (Call.run store (.read distanceText)).1 = [⟨.numerical, 4⟩] := by decide +kernel
  rw [issued] at read
  exact ⟨_, read, by decide +kernel, by decide +kernel⟩

end Store.Blocks

/-- From the block with a name to any other one it is a single step. -/
theorem evaluate_meaning_blocks :
    ∃ s : Store, s.Reachable [⟨.numerical, 4⟩] ∧
      s.evaluate ⟨.numerical, 4⟩ Store.Blocks.state = .ok (.numerical 1) ∧
      ∃ t d, s.tree? ⟨.numerical, 4⟩ = some t ∧
        s.evaluate ⟨.numerical, 4⟩ Store.Blocks.state = .ok d ∧ d.kind = .numerical ∧
        d.meaning = t.meaning Store.Blocks.state := by
  obtain ⟨s, reachable, vocabulary, value⟩ := Store.Blocks.exists_distance
  have belongs : Store.Blocks.state.Over s.vocabulary :=
    ⟨Store.Blocks.problem_made, vocabulary ▸ by decide +kernel⟩
  have small : Store.Blocks.state.objectCount < UInt32.size := by decide +kernel
  exact ⟨s, reachable, value,
    (reachable.evaluate_meaning (List.mem_singleton_self _) belongs small).1⟩

end PlanFeatures
