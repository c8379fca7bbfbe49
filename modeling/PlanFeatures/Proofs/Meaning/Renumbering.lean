import PlanFeatures.Proofs.Meaning.Correctness
import PlanFeatures.Proofs.Meaning.Renaming

/-!
# The numbers of objects do not matter

Objects and atoms get their numbers in the order in which they are declared.  Two states with
the same object names and the same true atoms, both told by names, differ in nothing but these
numbers, and in which of their atoms are static.  There is then one way to give the objects of
the first the numbers of the second, and every expression denotes the same up to it: the names
that it denotes, and its values, are equal.
-/

namespace PlanFeatures

/-! ## States by name -/

namespace State

def nameOf (s : State) (x : Fin s.objectCount) : String :=
  have inside : (x : Nat) < s.problem.objects.size := x.isLt
  s.problem.objects[(x : Nat)]

/-- The true atoms, told by their predicates and the names of their objects. -/
def facts (s : State) : List (PredicateId × List (Option String)) :=
  s.trueAtoms.map fun a => (a.predicate, a.objects.map s.problem.objectName?)

variable {s : State}

theorem objectName?_eq (x : Fin s.objectCount) : s.problem.objectName? ⟨x⟩ = some (s.nameOf x) :=
  Array.getElem?_eq_getElem x.isLt

theorem mem_objects {name : String} : name ∈ s.problem.objects ↔ ∃ x, s.nameOf x = name := by
  rw [Array.mem_iff_getElem]
  constructor
  · rintro ⟨i, inside, same⟩
    exact ⟨⟨i, inside⟩, same⟩
  · rintro ⟨x, same⟩
    exact ⟨x, x.isLt, same⟩

/-- An object that has the name of another is that one. -/
theorem index_eq (made : s.problem.Made) {o : ObjectId} {x : Fin s.objectCount}
    (named : s.problem.objectName? o = some (s.nameOf x)) : o = ⟨x⟩ := by
  obtain ⟨i⟩ := o
  have same := made.wellNamed.objects i x _ _ named (objectName?_eq x) rfl
  rw [same]

theorem nameOf_injective (made : s.problem.Made) : Function.Injective s.nameOf := by
  intro x y same
  have named : s.problem.objectName? ⟨x⟩ = some (s.nameOf y) := by rw [objectName?_eq, same]
  exact Fin.ext (congrArg ObjectId.index (index_eq made named))

theorem mem_facts {p : PredicateId} {names : List (Option String)} :
    (p, names) ∈ s.facts
      ↔ ∃ objects, s.Holds p objects ∧ objects.map s.problem.objectName? = names := by
  simp only [facts, List.mem_map, Prod.mk.injEq, holds_iff, atomsOf, List.mem_filter,
    decide_eq_true_eq]
  constructor
  · rintro ⟨atom, member, predicate, named⟩
    exact ⟨atom.objects, ⟨atom, ⟨member, predicate⟩, rfl⟩, named⟩
  · rintro ⟨_, ⟨atom, ⟨member, predicate⟩, rfl⟩, named⟩
    exact ⟨atom, member, predicate, named⟩

end State

/-! ## Renumbering -/

/-- The states are the same when the objects of the first get other numbers. -/
structure State.Renumbered (s₁ s₂ : State) (σ : Fin s₁.objectCount ≃ Fin s₂.objectCount) :
    Prop where
  names : ∀ x, s₂.nameOf (σ x) = s₁.nameOf x
  facts : ∀ fact, fact ∈ s₁.facts ↔ fact ∈ s₂.facts

namespace State.Renumbered
variable {v : Vocabulary} {s₁ s₂ : State} {σ : Fin s₁.objectCount ≃ Fin s₂.objectCount}

theorem symm (same : s₁.Renumbered s₂ σ) : s₂.Renumbered s₁ σ.symm where
  names y := by simpa using (same.names (σ.symm y)).symm
  facts fact := (same.facts fact).symm

/-- What is true of objects is true of them under their other numbers. -/
theorem holds (same : s₁.Renumbered s₂ σ) (made : s₂.problem.Made) {p : PredicateId}
    {objects : List ObjectId} (true_in : s₁.Holds p objects) :
    ∃ objects', s₂.Holds p objects' ∧ objects'.length = objects.length ∧
      ∀ (i : Nat) (x : Fin s₁.objectCount), objects[i]? = some ⟨x⟩ →
        objects'[i]? = some ⟨σ x⟩ := by
  have there := (same.facts _).mp (mem_facts.mpr ⟨objects, true_in, rfl⟩)
  obtain ⟨objects', true_in', names⟩ := mem_facts.mp there
  refine ⟨objects', true_in', ?_, ?_⟩
  · simpa using congrArg List.length names
  · intro i x place
    have entry := congrArg (·[i]?) names
    simp only [List.getElem?_map, place, Option.map_some, objectName?_eq, ← same.names] at entry
    obtain ⟨o, place', named⟩ := Option.map_eq_some_iff.mp entry
    rw [place', index_eq made named]

theorem named_iff (same : s₁.Renumbered s₂ σ) (over₁ : s₁.Over v) (over₂ : s₂.Over v)
    {k : ConstantId} {x : Fin s₁.objectCount} : s₂.Named k (σ x) ↔ s₁.Named k x := by
  rw [Named, Named, over₁.vocabulary, over₂.vocabulary, objectName?_eq, objectName?_eq,
    same.names]

theorem leaf_meaning (same : s₁.Renumbered s₂ σ) (over₁ : s₁.Over v) (over₂ : s₂.Over v)
    (l : Leaf) : (l.meaning s₁).Renamed σ (l.meaning s₂) := by
  have back := same.symm
  cases l with
  | conceptPrimitive p i =>
    refine .concept fun x => ?_
    constructor
    · rintro ⟨objects, true_in, place⟩
      obtain ⟨objects', true_in', _, places⟩ := back.holds over₁.made true_in
      exact ⟨objects', true_in', by simpa using places i _ place⟩
    · rintro ⟨objects, true_in, place⟩
      obtain ⟨objects', true_in', _, places⟩ := same.holds over₂.made true_in
      exact ⟨objects', true_in', places i x place⟩
  | conceptBot => exact .concept fun _ => Iff.rfl
  | conceptTop => exact .concept fun _ => Iff.rfl
  | conceptOneOf k => exact .concept fun _ => same.named_iff over₁ over₂
  | rolePrimitive p i j =>
    refine .role fun x y => ?_
    constructor
    · rintro ⟨objects, true_in, first, second⟩
      obtain ⟨objects', true_in', _, places⟩ := back.holds over₁.made true_in
      exact ⟨objects', true_in', by simpa using places i _ first,
        by simpa using places j _ second⟩
    · rintro ⟨objects, true_in, first, second⟩
      obtain ⟨objects', true_in', _, places⟩ := same.holds over₂.made true_in
      exact ⟨objects', true_in', places i x first, places j y second⟩
  | roleTop => exact .role fun _ _ => Iff.rfl
  | booleanNullary p =>
    refine .boolean ?_
    constructor
    · intro true_in
      obtain ⟨objects', true_in', length, _⟩ := back.holds over₁.made true_in
      rwa [List.eq_nil_of_length_eq_zero length] at true_in'
    · intro true_in
      obtain ⟨objects', true_in', length, _⟩ := same.holds over₂.made true_in
      rwa [List.eq_nil_of_length_eq_zero length] at true_in'

end State.Renumbered

/-- States with the same names for their objects and the same facts differ in numbers only. -/
theorem State.exists_renumbered {v : Vocabulary} {s₁ s₂ : State} (over₁ : s₁.Over v)
    (over₂ : s₂.Over v) (objects : ∀ name, name ∈ s₁.problem.objects ↔ name ∈ s₂.problem.objects)
    (facts : ∀ fact, fact ∈ s₁.facts ↔ fact ∈ s₂.facts) : ∃ σ, s₁.Renumbered s₂ σ := by
  have forth : ∀ x, ∃ y, s₂.nameOf y = s₁.nameOf x := fun x =>
    mem_objects.mp ((objects _).mp (mem_objects.mpr ⟨x, rfl⟩))
  choose f names using forth
  have injective : Function.Injective f := by
    intro x y same
    apply nameOf_injective over₁.made
    rw [← names, ← names, same]
  have surjective : Function.Surjective f := by
    intro y
    obtain ⟨x, same⟩ := mem_objects.mp ((objects _).mpr (mem_objects.mpr ⟨y, rfl⟩))
    exact ⟨x, nameOf_injective over₂.made ((names x).trans same)⟩
  exact ⟨Equiv.ofBijective f ⟨injective, surjective⟩, names, facts⟩

/-! ## Expressions -/

section
variable {v : Vocabulary} {s₁ s₂ : State} {σ : Fin s₁.objectCount ≃ Fin s₂.objectCount}

theorem UnaryOp.apply_renamed {op : UnaryOp} {d : Extension s₁.objectCount}
    {d' : Extension s₂.objectCount} (kind : d.kind = op.operand) (kind' : d'.kind = op.operand)
    (same : d.Renamed σ d') :
    ∃ x x', op.apply s₁ d = .ok x ∧ op.apply s₂ d' = .ok x' ∧ x.Renamed σ x' := by
  obtain ⟨x, value, means⟩ := UnaryOp.apply_meaning kind
  obtain ⟨x', value', means'⟩ := UnaryOp.apply_meaning kind'
  refine ⟨x, x', value, value', ?_⟩
  rw [Extension.Renamed, means, means']
  exact op.meaning_renamed same

theorem BinaryOp.apply_renamed {op : BinaryOp} {d e : Extension s₁.objectCount}
    {d' e' : Extension s₂.objectCount} (left : d.kind = op.left) (right : e.kind = op.right)
    (left' : d'.kind = op.left) (right' : e'.kind = op.right) (first : d.Renamed σ d')
    (second : e.Renamed σ e') :
    ∃ x x', op.apply s₁ d e = .ok x ∧ op.apply s₂ d' e' = .ok x' ∧ x.Renamed σ x' := by
  obtain ⟨x, value, means⟩ := BinaryOp.apply_meaning left right
  obtain ⟨x', value', means'⟩ := BinaryOp.apply_meaning left' right'
  refine ⟨x, x', value, value', ?_⟩
  rw [Extension.Renamed, means, means']
  exact op.meaning_renamed first second

/-- Distances are compared before they are cut to words, so that no bound on the number of
objects is needed. -/
theorem applyDistance_renamed {d e f : Extension s₁.objectCount}
    {d' e' f' : Extension s₂.objectCount} (source : d.kind = .concept) (role : e.kind = .role)
    (target : f.kind = .concept) (source' : d'.kind = .concept) (role' : e'.kind = .role)
    (target' : f'.kind = .concept) (first : d.Renamed σ d') (second : e.Renamed σ e')
    (third : f.Renamed σ f') :
    ∃ x x', applyDistance s₁ d e f = .ok x ∧ applyDistance s₂ d' e' f' = .ok x' ∧
      x.Renamed σ x' := by
  cases d <;> simp only [Extension.kind, reduceCtorEq] at source
  cases e <;> simp only [Extension.kind, reduceCtorEq] at role
  cases f <;> simp only [Extension.kind, reduceCtorEq] at target
  cases d' <;> simp only [Extension.kind, reduceCtorEq] at source'
  cases e' <;> simp only [Extension.kind, reduceCtorEq] at role'
  cases f' <;> simp only [Extension.kind, reduceCtorEq] at target'
  case concept.role.concept.concept.role.concept S r T S' r' T' =>
    obtain ⟨steps, found, word⟩ := Relation.found_distance S r T
    obtain ⟨steps', found', word'⟩ := Relation.found_distance S' r' T'
    have same := found.renamed second.relates first.set third.set found'
    refine ⟨_, _, rfl, rfl, .numerical ?_⟩
    rw [word, word', same]

namespace Expr

/-- An expression denotes the same in both states, up to the numbers of the objects. -/
theorem denote_renamed (same : s₁.Renumbered s₂ σ) (over₁ : s₁.Over v) (over₂ : s₂.Over v)
    {e : Expr} (formed : e.Over v) :
    ∃ d d', e.denote s₁ = .ok d ∧ e.denote s₂ = .ok d' ∧ d.Renamed σ d' := by
  induction e with
  | leaf l =>
    obtain ⟨d, value, means⟩ := Leaf.denote_meaning over₁ formed.declared
    obtain ⟨d', value', means'⟩ := Leaf.denote_meaning over₂ formed.declared
    refine ⟨d, d', value, value', ?_⟩
    rw [Extension.Renamed, means, means']
    exact same.leaf_meaning over₁ over₂ l
  | unary op a iha =>
    obtain ⟨d, d', value, value', sameA⟩ := iha formed.unary
    have kind := kind_of_denote over₁ formed.unary value
    have kind' := kind_of_denote over₂ formed.unary value'
    rw [denote_unary value, denote_unary value']
    exact UnaryOp.apply_renamed (kind.trans formed.wellKinded.1)
      (kind'.trans formed.wellKinded.1) sameA
  | binary op a b iha ihb =>
    obtain ⟨formedA, formedB⟩ := formed.binary
    obtain ⟨d, d', left, left', sameA⟩ := iha formedA
    obtain ⟨e, e', right, right', sameB⟩ := ihb formedB
    obtain ⟨kindA, kindB, _⟩ := formed.wellKinded
    have kindLeft := kind_of_denote over₁ formedA left
    have kindRight := kind_of_denote over₁ formedB right
    have kindLeft' := kind_of_denote over₂ formedA left'
    have kindRight' := kind_of_denote over₂ formedB right'
    rw [denote_binary left right, denote_binary left' right']
    exact BinaryOp.apply_renamed (kindLeft.trans kindA) (kindRight.trans kindB)
      (kindLeft'.trans kindA) (kindRight'.trans kindB) sameA sameB
  | distance a r b iha ihr ihb =>
    obtain ⟨formedA, formedR, formedB⟩ := formed.distance
    obtain ⟨d, d', source, source', sameA⟩ := iha formedA
    obtain ⟨e, e', role, role', sameR⟩ := ihr formedR
    obtain ⟨f, f', target, target', sameB⟩ := ihb formedB
    obtain ⟨kindA, kindR, kindB, _⟩ := formed.wellKinded
    have kindSource := kind_of_denote over₁ formedA source
    have kindRole := kind_of_denote over₁ formedR role
    have kindTarget := kind_of_denote over₁ formedB target
    have kindSource' := kind_of_denote over₂ formedA source'
    have kindRole' := kind_of_denote over₂ formedR role'
    have kindTarget' := kind_of_denote over₂ formedB target'
    rw [denote_distance source role target, denote_distance source' role' target']
    exact applyDistance_renamed (kindSource.trans kindA) (kindRole.trans kindR)
      (kindTarget.trans kindB) (kindSource'.trans kindA) (kindRole'.trans kindR)
      (kindTarget'.trans kindB) sameA sameR sameB

end Expr
end

/-! ## Names and values -/

/-- What an extension says of the objects by their names. -/
inductive NamedExtension where
  | concept (names : Set String)
  | role (relates : String → String → Prop)
  | boolean (value : Bool)
  | numerical (value : UInt32)

/-- The extension told by names. -/
def Extension.byName (s : State) : Extension s.objectCount → NamedExtension
  | concept set => .concept (s.nameOf '' set.toSet)
  | role relation => .role (Relation.Map relation.Holds s.nameOf s.nameOf)
  | boolean value => .boolean value
  | numerical value => .numerical value

theorem Extension.Renamed.byName_eq {s₁ s₂ : State}
    {σ : Fin s₁.objectCount ≃ Fin s₂.objectCount} (names : ∀ x, s₂.nameOf (σ x) = s₁.nameOf x)
    {d : Extension s₁.objectCount} {d' : Extension s₂.objectCount} (same : d.Renamed σ d') :
    d.byName s₁ = d'.byName s₂ := by
  unfold Renamed at same
  cases d <;> cases d' <;> cases same
  case concept.concept set set' same =>
    refine congrArg NamedExtension.concept (Set.ext fun name => ?_)
    show (∃ x, x ∈ set.toSet ∧ s₁.nameOf x = name) ↔ ∃ y, y ∈ set'.toSet ∧ s₂.nameOf y = name
    rw [σ.surjective.exists]
    exact exists_congr fun x => by rw [same, names]
  case role.role relation relation' same =>
    refine congrArg NamedExtension.role (funext fun name => funext fun name' => propext ?_)
    show (∃ x y, relation.Holds x y ∧ s₁.nameOf x = name ∧ s₁.nameOf y = name')
      ↔ ∃ x y, relation'.Holds x y ∧ s₂.nameOf x = name ∧ s₂.nameOf y = name'
    rw [σ.surjective.exists₂]
    exact exists₂_congr fun x y => by rw [same, names, names]
  case boolean.boolean value value' same =>
    exact congrArg NamedExtension.boolean (Bool.eq_iff_iff.mpr same).symm
  case numerical.numerical value value' same =>
    exact congrArg NamedExtension.numerical (UInt32.toNat_inj.mp same).symm

/-- In two states whose problems have the same object names and which have the same true atoms
by name, every expression that a store has given out denotes the same: booleans and numericals
have one value, concepts the same names and roles the same pairs of names. -/
theorem Store.Reachable.evaluate_renumbered {store : Store} {issued : List Handle}
    (reachable : store.Reachable issued) {h : Handle} (owned : h ∈ issued) {s₁ s₂ : State}
    (over₁ : s₁.Over store.vocabulary) (over₂ : s₂.Over store.vocabulary)
    (objects : ∀ name, name ∈ s₁.problem.objects ↔ name ∈ s₂.problem.objects)
    (facts : ∀ fact, fact ∈ s₁.facts ↔ fact ∈ s₂.facts) :
    ∃ d d', store.evaluate h s₁ = .ok d ∧ store.evaluate h s₂ = .ok d' ∧ d.kind = h.kind ∧
      d.byName s₁ = d'.byName s₂ := by
  obtain ⟨wf, has⟩ := reachable.sound
  obtain ⟨t, stands⟩ := wf.represents (has h owned)
  obtain ⟨σ, renumbered⟩ := State.exists_renumbered over₁ over₂ objects facts
  obtain ⟨d, d', value, value', same⟩ :=
    Expr.denote_renamed renumbered over₁ over₂ stands.formed
  have kind := Expr.kind_of_denote over₁ stands.formed value
  refine ⟨d, d', ?_, ?_, kind.trans stands.kind, same.byName_eq renumbered.names⟩
  · rw [wf.evaluate_eq over₁ (has h owned) stands, value]
  · rw [wf.evaluate_eq over₂ (has h owned) stands, value']

/-! ## Blocks declared in another order -/

namespace Store.Blocks

/-- A block is on another one. -/
def declare (p : Problem) (block under : String) (isStatic : Bool) : Problem :=
  match p.addAtom "on" [block, under] isStatic with
  | .ok (_, p) => p
  | .error _ => p

theorem declare_made {p : Problem} (made : p.Made) (block under : String) (isStatic : Bool) :
    (declare p block under isStatic).Made := by
  unfold declare
  split
  next added => exact .atom made added
  next => exact made

/-- Three blocks on each other, declared from the top. -/
def fromTop : State :=
  ⟨declare (declare (.new 0 vocabulary) "b-1" "b-2" false) "b-2" "b-3" false, [⟨0⟩, ⟨1⟩]⟩

/-- The same blocks, the lowest first, where the upper one stays where it is. -/
def fromBottom : State :=
  ⟨declare (declare (Problem.addObject (.new 1 vocabulary) "b-3").2 "b-2" "b-3" false) "b-1" "b-2"
    true, [⟨0⟩]⟩

theorem fromTop_over : fromTop.Over vocabulary :=
  ⟨declare_made (declare_made (.new 0 vocabulary) _ _ _) _ _ _, by decide +kernel⟩

theorem fromBottom_over : fromBottom.Over vocabulary :=
  ⟨declare_made (declare_made (.object (.new 1 vocabulary) "b-3") _ _ _) _ _ _, by decide +kernel⟩

theorem exists_upper : ∃ s : Store, s.Reachable [⟨.concept, 3⟩] ∧ s.vocabulary = vocabulary ∧
    s.evaluate ⟨.concept, 3⟩ fromTop = .ok (.concept ⟨0b011⟩) ∧
    s.evaluate ⟨.concept, 3⟩ fromBottom = .ok (.concept ⟨0b101⟩) := by
  have read := store_reachable.call (.read "c_some(r_primitive(on,0,1),c_top)")
    (fun _ member => absurd member List.not_mem_nil) trivial
  have issued : (Call.run store (.read "c_some(r_primitive(on,0,1),c_top)")).1
      = [⟨.concept, 3⟩] := by decide +kernel
  rw [issued] at read
  exact ⟨_, read, by decide +kernel, by decide +kernel, by decide +kernel⟩

end Store.Blocks

/-- The blocks on others have the numbers 0 and 1 in one state and 0 and 2 in the other, and
the same names. -/
theorem evaluate_renumbered_blocks :
    ∃ s : Store, s.Reachable [⟨.concept, 3⟩] ∧
      s.evaluate ⟨.concept, 3⟩ Store.Blocks.fromTop = .ok (.concept ⟨0b011⟩) ∧
      s.evaluate ⟨.concept, 3⟩ Store.Blocks.fromBottom = .ok (.concept ⟨0b101⟩) ∧
      Extension.byName Store.Blocks.fromTop (.concept ⟨0b011⟩)
        = Extension.byName Store.Blocks.fromBottom (.concept ⟨0b101⟩) := by
  obtain ⟨s, reachable, vocabulary, value, value'⟩ := Store.Blocks.exists_upper
  have objects : ∀ name, name ∈ Store.Blocks.fromTop.problem.objects
      ↔ name ∈ Store.Blocks.fromBottom.problem.objects := by
    have top : Store.Blocks.fromTop.problem.objects = #["b-1", "b-2", "b-3"] := by decide +kernel
    have bottom : Store.Blocks.fromBottom.problem.objects = #["b-1", "b-3", "b-2"] := by
      decide +kernel
    intro name
    rw [top, bottom]
    simp [or_comm]
  have facts : ∀ fact, fact ∈ Store.Blocks.fromTop.facts
      ↔ fact ∈ Store.Blocks.fromBottom.facts := by
    have reversed : Store.Blocks.fromBottom.facts = Store.Blocks.fromTop.facts.reverse := by
      decide +kernel
    intro fact
    rw [reversed, List.mem_reverse]
  obtain ⟨d, d', evaluated, evaluated', _, names⟩ :=
    reachable.evaluate_renumbered (List.mem_singleton_self _)
      (vocabulary ▸ Store.Blocks.fromTop_over) (vocabulary ▸ Store.Blocks.fromBottom_over) objects
      facts
  cases value.symm.trans evaluated
  cases value'.symm.trans evaluated'
  exact ⟨s, reachable, value, value', names⟩

end PlanFeatures
