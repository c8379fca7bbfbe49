import PlanFeatures.Domain.State
import PlanFeatures.Meaning.Evaluation

/-!
# Problems that have been made by declarations

A problem starts with the constants of its vocabulary and grows by objects and
atoms.  In every problem made that way an atom has as many objects as its
predicate takes, and all of them are objects of the problem.  So the true atoms of
a state can be looked up at each position below the arity.
-/

namespace PlanFeatures

namespace Problem

/-- The problems that declarations can lead to. -/
inductive Made : Problem → Prop where
  | new (id : Nat) (v : Vocabulary) : Made (.new id v)
  | object {p : Problem} (made : Made p) (name : String) : Made (p.addObject name).2
  | atom {p p' : Problem} {predicate : String} {objects : List String} {isStatic : Bool}
      {a : AtomId} (made : Made p)
      (added : p.addAtom predicate objects isStatic = .ok (a, p')) : Made p'

/-- The atom has the arity of its predicate and objects of the problem. -/
structure Fits (p : Problem) (a : Atom) : Prop where
  predicate : ∃ declared, p.vocabulary.predicate? a.predicate = some declared ∧
    a.objects.length = declared.arity
  objects : ∀ o ∈ a.objects, o.index < p.objectCount

/-! ## Growing problems -/

theorem findObject?_lt {p : Problem} {name : String} {o : ObjectId}
    (found : p.findObject? name = some o) : o.index < p.objectCount := by
  obtain ⟨i, place, rfl⟩ := Option.map_eq_some_iff.mp found
  exact (Array.findIdx?_eq_some_iff_getElem.mp place).choose

/-- Objects are added at the end; everything else stays. -/
structure Grown (p p' : Problem) : Prop where
  vocabulary : p'.vocabulary = p.vocabulary
  atoms : p'.atoms = p.atoms
  objects : p.objectCount ≤ p'.objectCount

theorem Fits.grown {p p' : Problem} {a : Atom} (fits : p.Fits a) (grown : p.Grown p') :
    p'.Fits a where
  predicate := by rw [grown.vocabulary]; exact fits.predicate
  objects o member := Nat.lt_of_lt_of_le (fits.objects o member) grown.objects

theorem addObject_grown (p : Problem) (name : String) :
    p.Grown (p.addObject name).2 ∧
      (p.addObject name).1.index < (p.addObject name).2.objectCount := by
  unfold addObject
  split
  next o found => exact ⟨⟨rfl, rfl, Nat.le_refl _⟩, findObject?_lt found⟩
  next => exact ⟨⟨rfl, rfl, by simp [objectCount]⟩, by simp [objectCount]⟩

theorem addObjects_grown (p : Problem) (names : List String) :
    p.Grown (p.addObjects names).2 ∧ (p.addObjects names).1.length = names.length ∧
      ∀ o ∈ (p.addObjects names).1, o.index < (p.addObjects names).2.objectCount := by
  induction names generalizing p with
  | nil => exact ⟨⟨rfl, rfl, Nat.le_refl _⟩, rfl, fun o member => absurd member List.not_mem_nil⟩
  | cons name rest ih =>
    obtain ⟨first, bound⟩ := addObject_grown p name
    obtain ⟨more, length, bounds⟩ := ih (p.addObject name).2
    refine ⟨⟨?_, ?_, ?_⟩, ?_, ?_⟩
    · exact more.vocabulary.trans first.vocabulary
    · exact more.atoms.trans first.atoms
    · exact Nat.le_trans first.objects more.objects
    · simp [addObjects, length]
    · intro o member
      cases member with
      | head => exact Nat.lt_of_lt_of_le bound more.objects
      | tail _ member => exact bounds o member

/-! ## The invariant -/

theorem findPredicate?_declared {v : Vocabulary} {name : String} {index : PredicateId}
    (found : v.findPredicate? name = some index) :
    ∃ declared, v.predicate? index = some declared := by
  obtain ⟨i, place, rfl⟩ := Option.map_eq_some_iff.mp found
  have inside := (Array.findIdx?_eq_some_iff_getElem.mp place).choose
  exact ⟨v.predicates[i], Array.getElem?_eq_getElem inside⟩

/-- What a declared atom changes: objects may be added, and one atom that fits. -/
theorem addAtom_cases {p p' : Problem} {predicate : String} {objects : List String}
    {isStatic : Bool} {a : AtomId} (added : p.addAtom predicate objects isStatic = .ok (a, p')) :
    ∃ q, q = (p.addObjects objects).2 ∧ (p' = q ∨
      ∃ atom, q.Fits atom ∧ p' = { q with atoms := q.atoms.push atom }) := by
  unfold addAtom at added
  cases found : p.vocabulary.findPredicate? predicate with
  | none => simp [found, throw, throwThe, MonadExceptOf.throw] at added
  | some index =>
    obtain ⟨declared, known⟩ := findPredicate?_declared found
    obtain ⟨grown, length, bounds⟩ := addObjects_grown p objects
    -- The objects are added before anything else is looked at.
    simp only [found, known, Option.elim] at added
    by_cases arity : declared.arity = objects.length
    · refine ⟨_, rfl, ?_⟩
      simp only [arity, ne_eq, not_true_eq_false, if_false] at added
      split at added
      next =>
        cases added
        refine Or.inr ⟨_, ⟨⟨declared, ?_, ?_⟩, bounds⟩, rfl⟩
        · rw [grown.vocabulary]; exact known
        · rw [length, arity]
      next =>
        split at added
        next =>
          split at added
          next => cases added; exact Or.inl rfl
          next => cases added
        next => cases added
    · simp [arity, throw, throwThe, MonadExceptOf.throw, bind, Except.bind] at added

theorem Made.fits {p : Problem} (made : p.Made) : ∀ a ∈ p.atoms, p.Fits a := by
  induction made with
  | new id v =>
    intro a member
    have grown := (addObjects_grown ⟨⟨id⟩, v, #[], #[]⟩ v.constants.toList).1
    rw [Problem.new, grown.atoms] at member
    cases Array.mem_toList_iff.mpr member
  | @object p _ name ih =>
    have grown := (addObject_grown p name).1
    intro a member
    rw [grown.atoms] at member
    exact (ih a member).grown grown
  | @atom p _ _ objects _ _ _ added ih =>
    have grown := (addObjects_grown p objects).1
    obtain ⟨q, rfl, rfl | ⟨atom, fits, rfl⟩⟩ := addAtom_cases added
    · intro a member
      rw [grown.atoms] at member
      exact (ih a member).grown grown
    · intro a member
      rcases Array.mem_push.mp member with old | rfl
      · rw [grown.atoms] at old
        exact ⟨(ih a old).grown grown |>.predicate, (ih a old).grown grown |>.objects⟩
      · exact ⟨fits.predicate, fits.objects⟩

theorem mem_staticAtoms {p : Problem} {a : AtomId} :
    a ∈ p.staticAtoms ↔ ∃ atom, p.atom? a = some atom ∧ atom.isStatic = true := by
  obtain ⟨i⟩ := a
  simp only [staticAtoms, atomList, List.mem_filterMap, List.mem_map, Prod.exists, atom?]
  constructor
  · rintro ⟨b, atom, ⟨atom', j, place, same⟩, chosen⟩
    cases same
    split at chosen
    next isStatic =>
      cases chosen
      exact ⟨atom, by simpa using List.mk_mem_zipIdx_iff_getElem?.mp place, isStatic⟩
    next => cases chosen
  · rintro ⟨atom, found, isStatic⟩
    refine ⟨⟨i⟩, atom, ⟨atom, i, ?_, rfl⟩, if_pos isStatic⟩
    exact List.mk_mem_zipIdx_iff_getElem?.mpr (by simpa using found)

/-- Static atoms are listed in the order of their indices. -/
theorem staticAtoms_increasing (p : Problem) :
    p.staticAtoms.Pairwise fun a b => a.index < b.index := by
  have numbered : p.atomList.Pairwise fun a b => a.1.index < b.1.index := by
    have range : p.atomList.map (·.1.index) = List.range' 0 p.atoms.size := by
      simp [atomList, Function.comp_def]
    rw [← List.pairwise_map (f := fun entry : AtomId × Atom => entry.1.index), range]
    exact List.pairwise_lt_range'
  apply numbered.filterMap
  intro first second earlier a chosen b chosen'
  simp at chosen chosen'
  rw [← chosen.2, ← chosen'.2]
  exact earlier

end Problem

/-! ## Atoms of states -/

/-- The index is that of an atom that is not static. -/
def Problem.Dynamic (p : Problem) (a : AtomId) : Prop :=
  ∃ atom, p.atom? a = some atom ∧ atom.isStatic = false

/-- A loop of checks ends when it has passed all of them. -/
theorem forM_eq_ok_iff {α ε : Type} {f : α → Except ε Unit} {as : List α} :
    as.forM f = .ok () ↔ ∀ a ∈ as, f a = .ok () := by
  induction as with
  | nil => simp [List.forM, pure, Except.pure]
  | cons b rest ih =>
    change (f b).bind (fun _ => rest.forM f) = .ok () ↔ _
    simp only [List.mem_cons, forall_eq_or_imp, ← ih]
    cases first : f b with
    | error e => simp [Except.bind]
    | ok => simp [Except.bind]

namespace State

theorem mem_trueAtoms {s : State} {atom : Atom} :
    atom ∈ s.trueAtoms ↔ ∃ a, s.problem.atom? a = some atom ∧ s.contains a = true := by
  simp only [trueAtoms, List.mem_filterMap, List.mem_append, Problem.mem_staticAtoms, contains]
  constructor
  · rintro ⟨a, listed | ⟨other, found', isStatic⟩, found⟩
    · exact ⟨a, found, by simp [found, listed]⟩
    · cases found'.symm.trans found
      exact ⟨a, found, by simp [found, isStatic]⟩
  · rintro ⟨a, found, true_in⟩
    simp only [found, Bool.or_eq_true, List.contains_iff_mem] at true_in
    rcases true_in with isStatic | listed
    · exact ⟨a, Or.inr ⟨atom, found, isStatic⟩, found⟩
    · exact ⟨a, Or.inl listed, found⟩

theorem fits_of_mem_atomsOf {s : State} (made : s.problem.Made) {p : PredicateId} {a : Atom}
    (member : a ∈ s.atomsOf p) : s.problem.Fits a ∧ a.predicate = p := by
  obtain ⟨true_in, same⟩ := List.mem_filter.mp member
  obtain ⟨i, _, found⟩ := List.mem_filterMap.mp true_in
  exact ⟨made.fits a (Array.mem_of_getElem? found), of_decide_eq_true same⟩

theorem objectAt_ok {s : State} (made : s.problem.Made) {p : PredicateId} {declared : Predicate}
    (known : s.problem.vocabulary.predicate? p = some declared) {i : Nat}
    (inside : i < declared.arity) {a : Atom} (member : a ∈ s.atomsOf p) :
    ∃ o, s.objectAt a i = .ok o := by
  obtain ⟨fits, rfl⟩ := fits_of_mem_atomsOf made member
  obtain ⟨other, same, length⟩ := fits.predicate
  cases known.symm.trans same
  have place : i < a.objects.length := length ▸ inside
  have bound : a.objects[i].index < s.objectCount := fits.objects _ (List.getElem_mem place)
  exact ⟨⟨a.objects[i].index, bound⟩, by simp [objectAt, place, bound]⟩

/-- The states of problems that declarations can lead to. -/
structure Made (s : State) : Prop where
  problem : s.problem.Made
  atoms : ∃ atoms, ofAtoms s.problem atoms = .ok s

theorem checkAtom_eq_ok_iff {p : Problem} {a : AtomId} :
    checkAtom p a = .ok () ↔ p.Dynamic a := by
  unfold checkAtom Problem.Dynamic
  cases found : p.atom? a with
  | none => simp
  | some atom => cases flag : atom.isStatic <;> simp [flag]

/-- The dynamic atoms of a problem make a state, whose list they are. -/
theorem ofAtoms_eq_ok_iff {p : Problem} {atoms : List AtomId} {s : State} :
    ofAtoms p atoms = .ok s ↔ (∀ a ∈ atoms, p.Dynamic a) ∧ s = ⟨p, sortAtoms atoms⟩ := by
  have passes : (sortAtoms atoms).forM (checkAtom p) = .ok () ↔ ∀ a ∈ atoms, p.Dynamic a := by
    simp only [forM_eq_ok_iff, checkAtom_eq_ok_iff, mem_sortAtoms]
  rw [← passes]
  change ((sortAtoms atoms).forM (checkAtom p)).bind (fun _ => .ok ⟨p, sortAtoms atoms⟩) = .ok s
    ↔ _
  cases (sortAtoms atoms).forM (checkAtom p) with
  | error e => simp [Except.bind]
  | ok => simp [Except.bind, eq_comm]

/-- All atoms that are true can be looked up. -/
theorem Made.atom? {s : State} (made : s.Made) :
    ∀ a ∈ s.atoms ++ s.problem.staticAtoms, ∃ atom, s.problem.atom? a = some atom := by
  intro a member
  rcases List.mem_append.mp member with dynamic | static
  · obtain ⟨atoms, given⟩ := made.atoms
    obtain ⟨valid, same⟩ := ofAtoms_eq_ok_iff.mp given
    rw [same] at dynamic
    obtain ⟨atom, found, _⟩ := valid a (mem_sortAtoms.mp dynamic)
    exact ⟨atom, found⟩
  · obtain ⟨atom, found, _⟩ := Problem.mem_staticAtoms.mp static
    exact ⟨atom, found⟩

end State
end PlanFeatures
