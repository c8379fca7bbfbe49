import PlanFeatures.Proofs.Domain.Declarations

/-!
# The tables of a problem stay in step

Five tables are kept of a problem.  As long as all indices are words, every declaration changes
them in step, and they answer what the problem answers.  A declaration that is refused has added
no object, so that it leaves the tables alone.
-/

namespace PlanFeatures

namespace Problem

theorem findObject?_push (p : Problem) (name other : String) :
    findObject? { p with objects := p.objects.push name } other =
      (p.findObject? other).or (if name = other then some ⟨p.objects.size⟩ else none) := by
  simp only [findObject?, Array.findIdx?_push, beq_iff_eq]
  cases p.objects.findIdx? (fun o => o == other) <;> split <;> simp

theorem lookup?_push (p : Problem) (atom : Atom) (predicate : PredicateId)
    (objects : List ObjectId) :
    lookup? { p with atoms := p.atoms.push atom } predicate objects =
      (p.lookup? predicate objects).or
        (if atom.key = (predicate, objects) then some ⟨p.atoms.size⟩ else none) := by
  simp only [lookup?_eq, Array.findIdx?_push, beq_iff_eq]
  cases p.atoms.findIdx? (fun a => a.key == (predicate, objects)) <;> split <;> simp

theorem staticAtoms_push (p : Problem) (atom : Atom) :
    staticAtoms { p with atoms := p.atoms.push atom } =
      p.staticAtoms ++ if atom.isStatic then [⟨p.atoms.size⟩] else [] := by
  simp only [staticAtoms, atomList, Array.toList_push, List.zipIdx_append, List.map_append,
    List.filterMap_append]
  cases flag : atom.isStatic <;> simp [flag]

end Problem

namespace Tables

theorem word_of_lt {n : Nat} (few : n < UInt32.size) : word n = n := by
  simp [word, Nat.toUInt32]
  exact few

/-- All indices are words. -/
structure Small (t : Tables) : Prop where
  objects : t.objects.size < UInt32.size
  atoms : t.atoms.size < UInt32.size

/-! ## What stays -/

/-- The entries keep their places. -/
structure Extends (t t' : Tables) : Prop where
  objects : ∀ (i : Nat) (o : ObjectEntry), t.objects[i]? = some o → t'.objects[i]? = some o
  atoms : ∀ (i : Nat) (a : AtomEntry), t.atoms[i]? = some a → t'.atoms[i]? = some a

namespace Extends
variable {t t' t'' : Tables}

theorem refl (t : Tables) : t.Extends t := ⟨fun _ _ found => found, fun _ _ found => found⟩

theorem trans (first : t.Extends t') (second : t'.Extends t'') : t.Extends t'' :=
  ⟨fun i o found => second.objects i o (first.objects i o found),
    fun i a found => second.atoms i a (first.atoms i a found)⟩

end Extends

theorem size_le_of_keeps {α : Type} {xs ys : Array α}
    (keeps : ∀ (i : Nat) (x : α), xs[i]? = some x → ys[i]? = some x) : xs.size ≤ ys.size := by
  apply Nat.le_of_not_lt
  intro fewer
  have found := keeps ys.size _ (Array.getElem?_eq_getElem fewer)
  simp at found

theorem getElem?_push_of_some {α : Type} {xs : Array α} {i : Nat} {x y : α}
    (found : xs[i]? = some x) : (xs.push y)[i]? = some x := by
  have inside : i < xs.size := (Array.getElem?_eq_some_iff.mp found).choose
  rw [Array.getElem?_push, if_neg (Nat.ne_of_lt inside), found]

theorem Extends.small {t t' : Tables} (later : t.Extends t') (small : t'.Small) : t.Small :=
  ⟨Nat.lt_of_le_of_lt (size_le_of_keeps later.objects) small.objects,
    Nat.lt_of_le_of_lt (size_le_of_keeps later.atoms) small.atoms⟩

variable {t : Tables}

theorem pushObject_extends (t : Tables) (name : String) : t.Extends (t.pushObject name).2 :=
  ⟨fun _ _ found => getElem?_push_of_some found, fun _ _ found => found⟩

theorem pushAtom_extends (t : Tables) (atom : Atom) : t.Extends (t.pushAtom atom).2 :=
  ⟨fun _ _ found => found, fun _ _ found => getElem?_push_of_some found⟩

theorem addObject_extends (t : Tables) (name : String) : t.Extends (t.addObject name).2 := by
  unfold addObject
  split
  next => exact .refl t
  next => exact pushObject_extends t name

theorem addObjects_extends (t : Tables) (names : List String) :
    t.Extends (t.addObjects names).2 := by
  induction names generalizing t with
  | nil => exact .refl t
  | cons name rest ih => exact (addObject_extends t name).trans (ih _)

theorem putAtom_extends (t : Tables) (predicate : PredicateId) (objects : List ObjectId)
    (isStatic : Bool) : t.Extends (t.putAtom predicate objects isStatic).2 := by
  unfold putAtom
  split
  next => exact pushAtom_extends t _
  next =>
    split
    next => exact .refl t
    next => split <;> exact .refl t

theorem addAtom_extends (t : Tables) (predicate : String) (objects : List String)
    (isStatic : Bool) : t.Extends (t.addAtom predicate objects isStatic).2 := by
  unfold addAtom
  split
  next => exact .refl t
  next =>
    dsimp only
    split
    next => exact .refl t
    next => exact (addObjects_extends t objects).trans (putAtom_extends _ _ _ _)

theorem declare_extends (t : Tables) (d : Declaration) : t.Extends (t.declare d).2 := by
  cases d with
  | object name => exact addObject_extends t name
  | atom predicate objects isStatic => exact addAtom_extends t predicate objects isStatic

/-- Objects and atoms stay what they are for ever. -/
theorem declareAll_extends (t : Tables) (ds : List Declaration) :
    t.Extends (t.declareAll ds).2 := by
  induction ds generalizing t with
  | nil => exact .refl t
  | cons d rest ih => exact (declare_extends t d).trans (ih _)

/-! ## In step -/

/-- The tables answer what the problem answers. -/
structure InStep (t : Tables) : Prop where
  objects : ∀ (i : Nat) (o : ObjectEntry), t.objects[i]? = some o → o.index = ⟨i⟩
  names : ∀ name, t.findObject? name = t.problem.findObject? name
  atoms : ∀ (i : Nat) (a : AtomEntry), t.atoms[i]? = some a → a.index = ⟨i⟩
  keys : ∀ predicate objects, t.lookup? predicate objects = t.problem.lookup? predicate objects
  static : t.staticAtoms.toList = t.problem.staticAtoms

theorem eq_of_getElem?_push {α : Type} {xs : Array α} {i : Nat} {x y : α}
    (found : (xs.push y)[i]? = some x) : xs[i]? = some x ∨ (i = xs.size ∧ x = y) := by
  rw [Array.getElem?_push] at found
  split at found
  next last => exact Or.inr ⟨last, (Option.some.inj found).symm⟩
  next => exact Or.inl found

namespace InStep

theorem pushObject (inStep : t.InStep) {name : String} (small : t.Small)
    (absent : t.problem.findObject? name = none) :
    (t.pushObject name).2.InStep ∧ (t.pushObject name).1 = ⟨t.problem.objects.size⟩ ∧
      (t.pushObject name).2.problem
        = { t.problem with objects := t.problem.objects.push name } := by
  have index : word t.objects.size = t.problem.objects.size := by
    rw [word_of_lt small.objects]
    simp [problem]
  have grown : (t.pushObject name).2.problem
      = { t.problem with objects := t.problem.objects.push name } := by
    simp [Tables.pushObject, problem]
  refine ⟨⟨?_, ?_, ?_, ?_, ?_⟩, congrArg ObjectId.mk index, grown⟩
  · intro i o stored
    rcases eq_of_getElem?_push stored with old | ⟨rfl, rfl⟩
    · exact inStep.objects i o old
    · rw [word_of_lt small.objects]
  · intro other
    rw [grown, Problem.findObject?_push, ← inStep.names other, ← index]
    simp only [Tables.pushObject, findObject?, Std.HashMap.getElem?_insert, beq_iff_eq]
    by_cases equal : name = other
    · subst equal
      rw [← inStep.names, findObject?] at absent
      simp [absent]
    · simp [equal]
  · intro i a stored
    exact inStep.atoms i a stored
  · intro predicate objects
    rw [grown]
    exact inStep.keys predicate objects
  · rw [grown]
    exact inStep.static

theorem pushAtom (inStep : t.InStep) (atom : Atom) (small : t.Small)
    (absent : t.problem.lookup? atom.predicate atom.objects = none) :
    (t.pushAtom atom).2.InStep ∧ (t.pushAtom atom).1 = ⟨t.problem.atoms.size⟩ ∧
      (t.pushAtom atom).2.problem
        = { t.problem with atoms := t.problem.atoms.push atom } := by
  have index : word t.atoms.size = t.problem.atoms.size := by
    rw [word_of_lt small.atoms]
    simp [problem]
  have grown : (t.pushAtom atom).2.problem
      = { t.problem with atoms := t.problem.atoms.push atom } := by
    simp [Tables.pushAtom, problem]
  refine ⟨⟨?_, ?_, ?_, ?_, ?_⟩, congrArg AtomId.mk index, grown⟩
  · intro i o stored
    exact inStep.objects i o stored
  · intro name
    rw [grown]
    exact inStep.names name
  · intro i a stored
    rcases eq_of_getElem?_push stored with old | ⟨rfl, rfl⟩
    · exact inStep.atoms i a old
    · rw [word_of_lt small.atoms]
  · intro predicate objects
    rw [grown, Problem.lookup?_push, ← inStep.keys, ← index]
    simp only [Tables.pushAtom, lookup?, Std.HashMap.getElem?_insert, beq_iff_eq, Atom.key]
    by_cases equal : (atom.predicate, atom.objects) = (predicate, objects)
    · cases equal
      rw [← inStep.keys, lookup?] at absent
      simp [absent]
    · simp [equal]
  · rw [grown, Problem.staticAtoms_push, ← inStep.static, ← index]
    simp only [Tables.pushAtom]
    split <;> simp

theorem addObject (inStep : t.InStep) (name : String) (small : (t.addObject name).2.Small) :
    (t.addObject name).2.InStep ∧
      t.problem.addObject name = ((t.addObject name).1, (t.addObject name).2.problem) := by
  cases found : t.findObject? name with
  | some o =>
    have same := (inStep.names name).symm.trans found
    simp only [Tables.addObject, Problem.addObject, found, same]
    exact ⟨inStep, trivial⟩
  | none =>
    have absent := (inStep.names name).symm.trans found
    obtain ⟨next, index, grown⟩ := inStep.pushObject ((addObject_extends t name).small small) absent
    simp only [Tables.addObject, Problem.addObject, found, absent, index, grown]
    exact ⟨next, trivial⟩

theorem addObjects (inStep : t.InStep) (names : List String)
    (small : (t.addObjects names).2.Small) :
    (t.addObjects names).2.InStep ∧
      t.problem.addObjects names = ((t.addObjects names).1, (t.addObjects names).2.problem) := by
  induction names generalizing t with
  | nil => exact ⟨inStep, rfl⟩
  | cons name rest ih =>
    have later := addObjects_extends (t.addObject name).2 rest
    obtain ⟨next, same⟩ := inStep.addObject name (later.small small)
    obtain ⟨last, same'⟩ := ih next small
    exact ⟨last, by simp only [Problem.addObjects, Tables.addObjects, same, same']⟩

theorem putAtom_listed (inStep : t.InStep) {predicate : PredicateId} {objects : List ObjectId}
    (isStatic : Bool) {a : AtomId} {atom : Atom}
    (listed : t.problem.lookup? predicate objects = some a)
    (stored : t.problem.atom? a = some atom) :
    t.putAtom predicate objects isStatic =
      if atom.isStatic = isStatic then (.atom a, t)
      else (.refused (.conflictingAtom (t.problem.atomText atom)), t) := by
  have place : (t.atoms[a.index]?).map AtomEntry.toAtom = some atom := by
    simpa [Problem.atom?, problem] using stored
  obtain ⟨entry, kept, rfl⟩ := Option.map_eq_some_iff.mp place
  simp only [Tables.putAtom, inStep.keys, listed, kept]

theorem putAtom_new (inStep : t.InStep) {predicate : PredicateId} {objects : List ObjectId}
    {isStatic : Bool} (small : (t.putAtom predicate objects isStatic).2.Small)
    (absent : t.problem.lookup? predicate objects = none) :
    (t.putAtom predicate objects isStatic).2.InStep ∧
      (t.putAtom predicate objects isStatic).1 = .atom ⟨t.problem.atoms.size⟩ ∧
      (t.putAtom predicate objects isStatic).2.problem
        = { t.problem with atoms := t.problem.atoms.push ⟨predicate, objects, isStatic⟩ } := by
  have before := (putAtom_extends t predicate objects isStatic).small small
  obtain ⟨next, index, grown⟩ := inStep.pushAtom ⟨predicate, objects, isStatic⟩ before absent
  simp only [Tables.putAtom, inStep.keys, absent, index, grown]
  exact ⟨next, trivial, trivial⟩

/-- The tables do what the problem does. -/
theorem addAtom (inStep : t.InStep) (made : t.problem.Made) (predicate : String)
    (objects : List String) (isStatic : Bool)
    (small : (t.addAtom predicate objects isStatic).2.Small) :
    (t.addAtom predicate objects isStatic).2.InStep ∧
      t.problem.declare (.atom predicate objects isStatic)
        = ((t.addAtom predicate objects isStatic).1,
          (t.addAtom predicate objects isStatic).2.problem) := by
  cases found : t.vocabulary.findPredicate? predicate with
  | none =>
    rw [Problem.declare_unknown found]
    simp only [Tables.addAtom, found]
    exact ⟨inStep, trivial⟩
  | some index =>
    obtain ⟨declared, known⟩ := Problem.findPredicate?_declared found
    by_cases arity : declared.arity = objects.length
    · have put : t.addAtom predicate objects isStatic
          = (t.addObjects objects).2.putAtom index (t.addObjects objects).1 isStatic := by
        simp [Tables.addAtom, found, known, arity]
      rw [put] at small ⊢
      have later := putAtom_extends (t.addObjects objects).2 index (t.addObjects objects).1 isStatic
      obtain ⟨next, added⟩ := inStep.addObjects objects (later.small small)
      -- Objects that are added change no answer about atoms.
      have atoms : (t.addObjects objects).2.problem.atoms = t.problem.atoms := by
        have grown := (Problem.addObjects_grown t.problem objects).1.atoms
        rwa [added] at grown
      have lookup : (t.addObjects objects).2.problem.lookup? index (t.addObjects objects).1
          = t.problem.lookup? index (t.problem.addObjects objects).1 := by
        rw [Problem.lookup?, Problem.lookup?, atoms, added]
      cases listed : t.problem.lookup? index (t.problem.addObjects objects).1 with
      | none =>
        obtain ⟨last, index, grown⟩ := next.putAtom_new small (lookup.trans listed)
        rw [Problem.declare_new found known arity listed, added, index, grown, atoms]
        exact ⟨last, rfl⟩
      | some a =>
        obtain ⟨nothing, atom, stored, _⟩ := Problem.addObjects_of_lookup? made listed
        have same : (t.addObjects objects).2.problem = t.problem := by rwa [added] at nothing
        rw [Problem.declare_listed found known arity made listed stored,
          next.putAtom_listed isStatic (lookup.trans listed) (same ▸ stored), same]
        split
        next => exact ⟨next, by rw [same]⟩
        next => exact ⟨next, by rw [same]⟩
    · rw [Problem.declare_arity found known arity]
      simp only [Tables.addAtom, found, known, Option.elim_some, ne_eq, arity, not_false_eq_true,
        if_true]
      exact ⟨inStep, trivial⟩

theorem declare (inStep : t.InStep) (made : t.problem.Made) (d : Declaration)
    (small : (t.declare d).2.Small) :
    (t.declare d).2.InStep ∧
      t.problem.declare d = ((t.declare d).1, (t.declare d).2.problem) := by
  cases d with
  | object name =>
    obtain ⟨next, same⟩ := inStep.addObject name small
    simp only [Problem.declare, same]
    exact ⟨next, rfl⟩
  | atom predicate objects isStatic => exact inStep.addAtom made predicate objects isStatic small

theorem declareAll (inStep : t.InStep) (made : t.problem.Made) (ds : List Declaration)
    (small : (t.declareAll ds).2.Small) :
    (t.declareAll ds).2.InStep ∧
      t.problem.declareAll ds = ((t.declareAll ds).1, (t.declareAll ds).2.problem) := by
  induction ds generalizing t with
  | nil => exact ⟨inStep, rfl⟩
  | cons d rest ih =>
    have later := declareAll_extends (t.declare d).2 rest
    obtain ⟨next, same⟩ := inStep.declare made d (later.small small)
    have made' : (t.declare d).2.problem.Made := by
      have grown := made.declare d
      rwa [same] at grown
    obtain ⟨last, same'⟩ := ih next made' small
    simp only [Problem.declareAll, same, same']
    exact ⟨last, rfl⟩

end InStep

/-! ## Refused declarations -/

/-- What adds no object changes nothing. -/
theorem addObjects_same {names : List String}
    (few : (t.addObjects names).2.objects.size ≤ t.objects.size) :
    (t.addObjects names).2 = t := by
  induction names with
  | nil => rfl
  | cons name rest ih =>
    have later := size_le_of_keeps (addObjects_extends (t.addObject name).2 rest).objects
    cases found : t.findObject? name with
    | some o =>
      have same : (t.addObject name).2 = t := by simp only [addObject, found]
      simp only [addObjects, same] at few ⊢
      exact ih few
    | none =>
      have more : (t.addObject name).2.objects.size = t.objects.size + 1 := by
        simp only [addObject, found, pushObject, Array.size_push]
      have less : (t.addObjects (name :: rest)).2.objects.size ≤ t.objects.size := few
      exact absurd (Nat.le_trans later less) (by omega)

theorem putAtom_refused {predicate : PredicateId} {objects : List ObjectId} {isStatic : Bool}
    {e : DomainError} (refused : (t.putAtom predicate objects isStatic).1 = .refused e) :
    (t.putAtom predicate objects isStatic).2 = t := by
  unfold putAtom at refused ⊢
  split
  next absent =>
    rw [absent] at refused
    cases refused
  next =>
    split
    next => rfl
    next => split <;> rfl

theorem addAtom_refused {predicate : String} {objects : List String} {isStatic : Bool}
    {e : DomainError} (refused : (t.addAtom predicate objects isStatic).1 = .refused e) :
    (t.addAtom predicate objects isStatic).2 = t ∨
      (t.addAtom predicate objects isStatic).2 = (t.addObjects objects).2 := by
  unfold addAtom at refused ⊢
  split
  next => exact Or.inl rfl
  next found =>
    dsimp only at refused ⊢
    split
    next => exact Or.inl rfl
    next arity =>
      simp only [found, if_neg arity] at refused
      exact Or.inr (putAtom_refused refused)

/-- A declaration that is refused leaves the tables as they were. -/
theorem InStep.unchanged (inStep : t.InStep) (made : t.problem.Made) {d : Declaration}
    (small : (t.declare d).2.Small) {e : DomainError} (refused : (t.declare d).1 = .refused e) :
    (t.declare d).2 = t := by
  cases d with
  | object name => cases refused
  | atom predicate objects isStatic =>
    have either : (t.declare (.atom predicate objects isStatic)).2 = t ∨
        (t.declare (.atom predicate objects isStatic)).2 = (t.addObjects objects).2 :=
      addAtom_refused refused
    rcases either with same | added
    · exact same
    · -- The problem is left as it was, so its objects are not more than before.
      have result := (inStep.declare made (.atom predicate objects isStatic) small).2
      have problem := Problem.declare_unchanged made ((congrArg Prod.fst result).trans refused)
      rw [result] at problem
      have sizes := congrArg Problem.objectCount problem
      simp only [Problem.objectCount, Tables.problem, Array.size_map, added] at sizes
      exact added.trans (addObjects_same (Nat.le_of_eq sizes))

/-! ## All declarations -/

theorem new_inStep (id : Nat) (v : Vocabulary) (small : (new id v).Small) :
    (new id v).InStep ∧ (new id v).problem = Problem.new id v := by
  have empty : InStep ⟨⟨id⟩, v, #[], ∅, #[], ∅, #[]⟩ := by
    constructor <;> simp [findObject?, lookup?, problem, Problem.findObject?, Problem.lookup?,
      Problem.staticAtoms, Problem.atomList]
  have start : problem ⟨⟨id⟩, v, #[], ∅, #[], ∅, #[]⟩ = ⟨⟨id⟩, v, #[], #[]⟩ := by simp [problem]
  obtain ⟨inStep, same⟩ := empty.addObjects v.constants.toList small
  rw [start] at same
  exact ⟨inStep, (congrArg Prod.snd same).symm⟩

theorem declareAll_append (t : Tables) (ds more : List Declaration) :
    (t.declareAll (ds ++ more)).2 = ((t.declareAll ds).2.declareAll more).2 := by
  induction ds generalizing t with
  | nil => rfl
  | cons d rest ih => exact ih _

end Tables
end PlanFeatures
