import PlanFeatures.Proofs.Domain.Declared
import PlanFeatures.Proofs.Domain.Tables

/-!
# Tables are consistent after any declarations

Whatever has been declared, the five tables of a problem fit together and hold what has been
accepted, under the index that was answered.
-/

namespace PlanFeatures

/-- The objects that a declaration names. -/
def Declaration.names : Declaration → List String
  | .object name => [name]
  | .atom _ objects _ => objects

namespace Tables

/-- The tables after declarations on new ones. -/
def after (id : Nat) (v : Vocabulary) (ds : List Declaration) : Tables :=
  ((new id v).declareAll ds).2

/-- The declarations with what they have answered. -/
def log (id : Nat) (v : Vocabulary) (ds : List Declaration) : List (Declaration × Reply) :=
  ds.zip ((new id v).declareAll ds).1

theorem after_append (id : Nat) (v : Vocabulary) (ds more : List Declaration) :
    after id v (ds ++ more) = ((after id v ds).declareAll more).2 :=
  declareAll_append (new id v) ds more

theorem after_extends (id : Nat) (v : Vocabulary) (ds more : List Declaration) :
    (after id v ds).Extends (after id v (ds ++ more)) := by
  rw [after_append]
  exact declareAll_extends _ more

/-- The tables answer what the problem answers. -/
theorem after_problem {id : Nat} {v : Vocabulary} {ds : List Declaration}
    (small : (after id v ds).Small) :
    (after id v ds).InStep ∧ (after id v ds).problem.Made ∧
      (Problem.new id v).declareAll ds
        = (((new id v).declareAll ds).1, (after id v ds).problem) := by
  obtain ⟨start, same⟩ := new_inStep id v ((after_extends id v [] ds).small small)
  have made : (new id v).problem.Made := same ▸ .new id v
  obtain ⟨inStep, result⟩ := start.declareAll made ds small
  rw [same] at result
  refine ⟨inStep, ?_, result⟩
  have last := (Problem.Made.new id v).declareAll ds
  rwa [result] at last

/-! ## Consistent tables -/

/-- The five tables fit together, and they hold what has been declared. -/
structure Consistent (t : Tables) (v : Vocabulary) (log : List (Declaration × Reply)) : Prop where
  vocabulary : t.vocabulary = v
  objects : ∀ (i : Nat) (o : ObjectEntry), t.objects[i]? = some o → o.index = ⟨i⟩
  objectNames : UniquelyNamed ObjectEntry.name t.objects
  constants : ∀ name ∈ v.constants, ∃ o ∈ t.objects, o.name = name
  atoms : ∀ (i : Nat) (a : AtomEntry), t.atoms[i]? = some a → a.index = ⟨i⟩
  atomKeys : UniquelyNamed (fun a => (a.predicate, a.objects)) t.atoms
  arities : ∀ a ∈ t.atoms, ∃ declared, v.predicate? a.predicate = some declared ∧
    a.objects.length = declared.arity
  inRange : ∀ a ∈ t.atoms, ∀ o ∈ a.objects, o.index < t.objects.size
  findObject : ∀ name o, t.findObject? name = some o ↔
    ∃ entry ∈ t.objects, entry.index = o ∧ entry.name = name
  /-- An object is found when its name is that of a constant, of an object that has been
  declared, or of one in an atom that has been accepted. -/
  introduced : ∀ name, (∃ o, t.findObject? name = some o) ↔
    name ∈ v.constants ∨ ∃ entry ∈ log, Problem.Introduces entry name
  objectReplies : ∀ name o, (.object name, .object o) ∈ log → t.findObject? name = some o
  constantObject : ∀ k name, v.constant? k = some name →
    ∃ entry ∈ t.objects, entry.name = name ∧ t.constantObject? k = some entry.index
  /-- An atom is found when it has been accepted, with the index that it got. -/
  findAtom : ∀ predicate objects a, t.findAtom? predicate objects = some a ↔
    ∃ isStatic, (.atom predicate objects isStatic, .atom a) ∈ log
  /-- The entries of atoms are the atoms that have been accepted. -/
  accepted : ∀ predicate objects isStatic a,
    (.atom predicate objects isStatic, .atom a) ∈ log ↔
      ∃ entry ∈ t.atoms, entry.index = a ∧ entry.isStatic = isStatic ∧
        t.problem.NamesAtom entry.toAtom predicate objects
  staticOrder : t.staticAtoms.toList.Pairwise fun a b => a.index < b.index
  staticAtoms : ∀ a, a ∈ t.staticAtoms ↔ ∃ entry ∈ t.atoms, entry.index = a ∧ entry.isStatic = true

section
variable {t : Tables} (inStep : t.InStep)
include inStep

theorem InStep.findAtom? (predicate : String) (objects : List String) :
    t.findAtom? predicate objects = t.problem.findAtom? predicate objects := by
  have names : t.findObject? = t.problem.findObject? := funext inStep.names
  simp only [Tables.findAtom?, Problem.findAtom?, names, inStep.keys]
  rfl

theorem InStep.objectName?_iff {o : ObjectId} {name : String} :
    t.problem.objectName? o = some name ↔
      ∃ entry ∈ t.objects, entry.index = o ∧ entry.name = name := by
  simp only [Problem.objectName?, problem, Array.getElem?_map, Option.map_eq_some_iff]
  constructor
  · rintro ⟨entry, stored, named⟩
    exact ⟨entry, Array.mem_of_getElem? stored, inStep.objects _ _ stored, named⟩
  · rintro ⟨entry, member, rfl, named⟩
    obtain ⟨i, stored⟩ := Array.mem_iff_getElem?.mp member
    exact ⟨entry, by rw [inStep.objects i entry stored]; exact stored, named⟩

theorem InStep.atom?_iff {a : AtomId} {atom : Atom} :
    t.problem.atom? a = some atom ↔ ∃ entry ∈ t.atoms, entry.index = a ∧ entry.toAtom = atom := by
  simp only [Problem.atom?, problem, Array.getElem?_map, Option.map_eq_some_iff]
  constructor
  · rintro ⟨entry, stored, same⟩
    exact ⟨entry, Array.mem_of_getElem? stored, inStep.atoms _ _ stored, same⟩
  · rintro ⟨entry, member, rfl, same⟩
    obtain ⟨i, stored⟩ := Array.mem_iff_getElem?.mp member
    exact ⟨entry, by rw [inStep.atoms i entry stored]; exact stored, same⟩

end

theorem mem_objects_problem {t : Tables} {name : String} :
    name ∈ t.problem.objects ↔ ∃ o ∈ t.objects, o.name = name := by
  simp [problem]

theorem InStep.findObject?_iff {t : Tables} (inStep : t.InStep)
    (named : DistinctNames t.problem.objects) {name : String} {o : ObjectId} :
    t.findObject? name = some o ↔ ∃ entry ∈ t.objects, entry.index = o ∧ entry.name = name := by
  rw [inStep.names, Problem.findObject?_eq_some_iff named, inStep.objectName?_iff]

/-- The tables fit together after any declarations. -/
theorem after_consistent {id : Nat} {v : Vocabulary} {ds : List Declaration}
    (small : (after id v ds).Small) : (after id v ds).Consistent v (log id v ds) := by
  obtain ⟨inStep, made, result⟩ := after_problem small
  have named := made.wellNamed.objects
  have vocabulary : (after id v ds).vocabulary = v := by
    have unchanged := Problem.vocabulary_declareAll (.new id v) ds
    rw [result] at unchanged
    exact unchanged.trans (Problem.addObjects_grown _ _).1.vocabulary
  have names : ∀ name, name ∈ (after id v ds).problem.objects ↔ name ∈ v.constants ∨
      ∃ entry ∈ log id v ds, Problem.Introduces entry name := by
    have introduced := @Problem.mem_objects_new id v ds
    rw [result] at introduced
    intro name
    exact introduced
  have records : ∀ predicate objects isStatic a,
      (after id v ds).problem.Records predicate objects isStatic a ↔
        (.atom predicate objects isStatic, .atom a) ∈ log id v ds := by
    have accepted := @Problem.records_new id v ds
    rw [result] at accepted
    intro predicate objects isStatic a
    exact accepted
  have fits : ∀ a ∈ (after id v ds).atoms, (after id v ds).problem.Fits a.toAtom := by
    intro a member
    exact made.fits a.toAtom (Array.mem_map_of_mem member)
  constructor
  case vocabulary => exact vocabulary
  case objects => exact inStep.objects
  case objectNames => exact named.of_map
  case constants =>
    intro name constant
    exact mem_objects_problem.mp ((names name).mpr (Or.inl constant))
  case atoms => exact inStep.atoms
  case atomKeys => exact made.distinctKeys.of_map
  case arities =>
    intro a member
    rw [← vocabulary]
    exact (fits a member).predicate
  case inRange =>
    intro a member o object
    simpa [Problem.objectCount, problem] using (fits a member).objects o object
  case findObject =>
    intro name o
    exact inStep.findObject?_iff named
  case introduced =>
    intro name
    rw [← names, mem_objects_problem]
    simp only [inStep.findObject?_iff named]
    grind
  case objectReplies =>
    intro name o replied
    have answered := @Problem.objectName?_of_reply _ (.new id v) ds o name
    rw [result] at answered
    rw [inStep.names]
    exact (Problem.findObject?_eq_some_iff named).mpr (answered replied)
  case constantObject =>
    intro k name known
    obtain ⟨entry, member, same⟩ :=
      mem_objects_problem.mp ((names name).mpr (Or.inl (Array.mem_of_getElem? known)))
    have found := (inStep.findObject?_iff named).mpr ⟨entry, member, rfl, same⟩
    refine ⟨entry, member, same, ?_⟩
    simp [constantObject?, vocabulary, known, found]
  case findAtom =>
    intro predicate objects a
    simp only [inStep.findAtom?, made.findAtom?, ← records, Problem.Records]
    grind
  case accepted =>
    intro predicate objects isStatic a
    simp only [← records, Problem.Records, inStep.atom?_iff]
    grind
  case staticOrder =>
    rw [inStep.static]
    exact Problem.staticAtoms_increasing _
  case staticAtoms =>
    intro a
    rw [← Array.mem_toList_iff, inStep.static, Problem.mem_staticAtoms]
    simp only [inStep.atom?_iff]
    grind

/-- The tables fit together after any declarations, refused ones among them.  Entries stay what
they are, whatever is declared later.  A declaration that is refused leaves the tables as they
were, and there are three reasons to refuse one. -/
theorem declarations_consistent (id : Nat) (v : Vocabulary) (ds : List Declaration)
    (small : (after id v ds).Small) :
    (after id v ds).Consistent v (log id v ds) ∧
      (∀ more, (after id v ds).Extends (after id v (ds ++ more))) ∧
      ∀ earlier d later, ds = earlier ++ d :: later →
        (∀ e, ((after id v earlier).declare d).1 = .refused e →
          ((after id v earlier).declare d).2 = after id v earlier) ∧
        ∀ predicate objects isStatic, d = .atom predicate objects isStatic →
          ∀ e, ((after id v earlier).declare d).1 = .refused e ↔
            (after id v earlier).problem.Refuses predicate objects isStatic e := by
  refine ⟨after_consistent small, after_extends id v ds, ?_⟩
  intro earlier d later split
  have next : ((after id v earlier).declare d).2.Small := by
    have extends' := after_extends id v (earlier ++ [d]) later
    rw [List.append_assoc, List.singleton_append, ← split, after_append id v earlier [d]]
      at extends'
    exact extends'.small small
  have before := (declare_extends (after id v earlier) d).small next
  obtain ⟨inStep, made, _⟩ := after_problem before
  refine ⟨fun e refused => inStep.unchanged made next refused, ?_⟩
  intro predicate objects isStatic same e
  have result := (inStep.declare made d next).2
  rw [← congrArg Prod.fst result, same]
  exact Problem.declare_refused_iff made

/-! ## Few declarations -/

theorem addObject_size_le (t : Tables) (name : String) :
    (t.addObject name).2.objects.size ≤ t.objects.size + 1 ∧
      (t.addObject name).2.atoms.size = t.atoms.size := by
  unfold addObject
  split
  next => exact ⟨Nat.le_succ _, rfl⟩
  next => simp [pushObject]

theorem addObjects_size_le (t : Tables) (names : List String) :
    (t.addObjects names).2.objects.size ≤ t.objects.size + names.length ∧
      (t.addObjects names).2.atoms.size = t.atoms.size := by
  induction names generalizing t with
  | nil => exact ⟨Nat.le_refl _, rfl⟩
  | cons name rest ih =>
    obtain ⟨one, same⟩ := addObject_size_le t name
    obtain ⟨others, same'⟩ := ih (t.addObject name).2
    simp only [addObjects, List.length_cons]
    omega

theorem putAtom_size_le (t : Tables) (predicate : PredicateId) (objects : List ObjectId)
    (isStatic : Bool) :
    (t.putAtom predicate objects isStatic).2.objects.size = t.objects.size ∧
      (t.putAtom predicate objects isStatic).2.atoms.size ≤ t.atoms.size + 1 := by
  unfold putAtom
  split
  next => simp [pushAtom]
  next =>
    split
    next => simp
    next => split <;> simp

theorem declare_size_le (t : Tables) (d : Declaration) :
    (t.declare d).2.objects.size ≤ t.objects.size + d.names.length ∧
      (t.declare d).2.atoms.size ≤ t.atoms.size + 1 := by
  cases d with
  | object name =>
    obtain ⟨one, same⟩ := addObject_size_le t name
    exact ⟨one, Nat.le_succ_of_le (Nat.le_of_eq same)⟩
  | atom predicate objects isStatic =>
    obtain ⟨more, same⟩ := addObjects_size_le t objects
    simp only [declare, addAtom, Declaration.names]
    split
    next => exact ⟨Nat.le_add_right _ _, Nat.le_succ _⟩
    next index _ =>
      split
      next => exact ⟨Nat.le_add_right _ _, Nat.le_succ _⟩
      next =>
        have put := putAtom_size_le (t.addObjects objects).2 index (t.addObjects objects).1 isStatic
        omega

/-- Declarations that name few objects lead to tables whose indices are words. -/
theorem after_small {id : Nat} {v : Vocabulary} {ds : List Declaration}
    (fewNames : v.constants.size + (ds.flatMap Declaration.names).length < UInt32.size)
    (few : ds.length < UInt32.size) : (after id v ds).Small := by
  have grown : ∀ (t : Tables) (ds : List Declaration),
      (t.declareAll ds).2.objects.size ≤ t.objects.size + (ds.flatMap Declaration.names).length ∧
        (t.declareAll ds).2.atoms.size ≤ t.atoms.size + ds.length := by
    intro t ds
    induction ds generalizing t with
    | nil => exact ⟨Nat.le_refl _, Nat.le_refl _⟩
    | cons d rest ih =>
      obtain ⟨objects, atoms⟩ := declare_size_le t d
      obtain ⟨objects', atoms'⟩ := ih (t.declare d).2
      simp only [declareAll, List.flatMap_cons, List.length_append, List.length_cons]
      omega
  obtain ⟨objects, atoms⟩ := grown (new id v) ds
  have start : (new id v).objects.size ≤ v.constants.size ∧ (new id v).atoms.size = 0 := by
    simpa [new] using addObjects_size_le ⟨⟨id⟩, v, #[], ∅, #[], ∅, #[]⟩ v.constants.toList
  constructor
  · have bound : (new id v).objects.size + (ds.flatMap Declaration.names).length < UInt32.size := by
      omega
    exact Nat.lt_of_le_of_lt objects bound
  · have bound : (new id v).atoms.size + ds.length < UInt32.size := by omega
    exact Nat.lt_of_le_of_lt atoms bound

/-- Declarations that are refused add no object: the one that is new in the end gets the index
that comes next. -/
theorem declarations_consistent_blocks :
    ∃ (v : Vocabulary) (ds : List Declaration), (after 0 v ds).Small ∧
      ((new 0 v).declareAll ds).1 = [.atom ⟨0⟩, .refused (.conflictingAtom "on(a,table)"),
        .refused (.atomArity "on" 2 1), .refused (.unknownPredicate "under"), .atom ⟨1⟩,
        .object ⟨1⟩, .atom ⟨0⟩, .object ⟨3⟩] ∧
      (after 0 v ds).Consistent v (log 0 v ds) := by
  let v : Vocabulary := ⟨#[⟨"on", 2⟩], #["table"]⟩
  let ds : List Declaration := [.atom "on" ["a", "table"] false, .atom "on" ["a", "table"] true,
    .atom "on" ["c"] false, .atom "under" ["d"] true, .atom "on" ["b", "b"] true, .object "a",
    .atom "on" ["a", "table"] false, .object "d"]
  have small : (after 0 v ds).Small := after_small (by decide) (by decide)
  have replies : ((Problem.new 0 v).declareAll ds).1 = ((new 0 v).declareAll ds).1 :=
    congrArg Prod.fst (after_problem small).2.2
  refine ⟨v, ds, small, ?_, (declarations_consistent 0 v ds small).1⟩
  rw [← replies]
  decide +kernel

end Tables
end PlanFeatures
