import PlanFeatures.Proofs.Domain.Declarations

/-!
# What has been declared

The objects of a problem are the names that have been declared, in atoms or by themselves, and
its atoms are the declarations of atoms that have been accepted.
-/

namespace PlanFeatures.Problem

/-- An accepted declaration names an object. -/
def Introduces : Declaration × Reply → String → Prop
  | (.object added, .object _), name => name = added
  | (.atom _ objects _, .atom _), name => name ∈ objects
  | _, _ => False

/-- An atom is stored as it has been declared. -/
def Records (p : Problem) (predicate : String) (objects : List String) (isStatic : Bool)
    (a : AtomId) : Prop :=
  ∃ atom, p.atom? a = some atom ∧ p.NamesAtom atom predicate objects ∧ atom.isStatic = isStatic

theorem NamesAtom.mem_objects {p : Problem} {atom : Atom} {predicate : String}
    {objects : List String} (names : p.NamesAtom atom predicate objects) {name : String}
    (member : name ∈ objects) : name ∈ p.objects := by
  have named : some name ∈ atom.objects.map p.objectName? :=
    names.objects ▸ List.mem_map_of_mem member
  obtain ⟨o, _, found⟩ := List.mem_map.mp named
  exact Array.mem_of_getElem? found

/-- An atom has one predicate and one list of objects, and these have one name each. -/
theorem NamesAtom.unique {p : Problem} {atom : Atom} {n m : String} {names others : List String}
    (first : p.NamesAtom atom n names) (second : p.NamesAtom atom m others) :
    n = m ∧ names = others := by
  constructor
  · obtain ⟨declared, known⟩ := findPredicate?_declared first.predicate
    exact (name_of_findPredicate? first.predicate known).symm.trans
      (name_of_findPredicate? second.predicate known)
  · have same := first.objects.symm.trans second.objects
    exact List.map_inj_right (fun _ _ => Option.some.inj) |>.mp same

theorem namesAtom_new {p : Problem} {predicate : String} {index : PredicateId}
    (found : p.vocabulary.findPredicate? predicate = some index) (objects : List String)
    (isStatic : Bool) (atoms : Array Atom) :
    NamesAtom { (p.addObjects objects).2 with atoms := atoms }
      ⟨index, (p.addObjects objects).1, isStatic⟩ predicate objects where
  predicate := (addObjects_grown p objects).1.vocabulary.symm ▸ found
  objects := map_objectName?_addObjects p objects

section
variable {p p' : Problem} {d : Declaration} {reply : Reply}

theorem Declares.mem_objects (declares : p.Declares d reply p') {name : String} :
    name ∈ p'.objects ↔ name ∈ p.objects ∨ Introduces (d, reply) name := by
  cases declares with
  | object added => exact mem_addObject
  | known _ names => exact (or_iff_left_of_imp names.mem_objects).symm
  | new => exact mem_addObjects
  | refused => exact (or_iff_left_of_imp False.elim).symm

theorem Declares.records_of (made : p.Made) (declares : p.Declares d reply p')
    {predicate : String} {objects : List String} {isStatic : Bool} {a : AtomId}
    (records : p.Records predicate objects isStatic a) :
    p'.Records predicate objects isStatic a := by
  obtain ⟨atom, stored, names, flag⟩ := records
  have fits := made.fits atom (Array.mem_of_getElem? stored)
  exact ⟨atom, declares.atom? stored, (declares.namesAtom fits).mpr names, flag⟩

/-- The atoms that are stored are the old ones and the one that is declared. -/
theorem Declares.records_iff (made : p.Made) (declares : p.Declares d reply p')
    {predicate : String} {objects : List String} {isStatic : Bool} {a : AtomId} :
    p'.Records predicate objects isStatic a ↔
      p.Records predicate objects isStatic a ∨
        (d, reply) = (.atom predicate objects isStatic, .atom a) := by
  constructor
  · rintro ⟨atom, stored, names, flag⟩
    -- An atom that was stored before has the same names now.
    have old : p.atom? a = some atom → p.Records predicate objects isStatic a := by
      intro stored
      have fits := made.fits atom (Array.mem_of_getElem? stored)
      exact ⟨atom, stored, (declares.namesAtom fits).mp names, flag⟩
    cases declares with
    | object name =>
      rw [Problem.atom?, (addObject_grown p name).1.atoms] at stored
      exact Or.inl (old stored)
    | known | refused => exact Or.inl (old stored)
    | new found =>
      rw [Problem.atom?, Array.getElem?_push] at stored
      split at stored
      next last =>
        obtain rfl : a = ⟨p.atoms.size⟩ := congrArg AtomId.mk last
        cases stored
        cases flag
        obtain ⟨rfl, rfl⟩ := (namesAtom_new found _ _ _).unique names
        exact Or.inr rfl
      next => exact Or.inl (old stored)
  · rintro (records | same)
    · exact declares.records_of made records
    · cases same
      cases declares with
      | known stored names => exact ⟨_, stored, names, rfl⟩
      | new found => exact ⟨_, Array.getElem?_push_size, namesAtom_new found _ _ _, rfl⟩

end

/-! ## Several declarations -/

section
variable {p : Problem}

theorem Made.declareAll (made : p.Made) (ds : List Declaration) : (p.declareAll ds).2.Made := by
  induction ds generalizing p with
  | nil => exact made
  | cons d rest ih => exact ih (made.declare d)

theorem vocabulary_declareAll (made : p.Made) (ds : List Declaration) :
    (p.declareAll ds).2.vocabulary = p.vocabulary := by
  induction ds generalizing p with
  | nil => rfl
  | cons d rest ih => exact (ih (made.declare d)).trans (declare_cases made d).vocabulary

theorem mem_objects_declareAll (made : p.Made) (ds : List Declaration) {name : String} :
    name ∈ (p.declareAll ds).2.objects ↔
      name ∈ p.objects ∨ ∃ entry ∈ ds.zip (p.declareAll ds).1, Introduces entry name := by
  induction ds generalizing p with
  | nil => simp [Problem.declareAll]
  | cons d rest ih =>
    simp only [Problem.declareAll, ih (made.declare d), (declare_cases made d).mem_objects,
      List.zip_cons_cons, List.mem_cons, or_and_right, exists_or, exists_eq_left, or_assoc]

theorem records_declareAll (made : p.Made) (ds : List Declaration) {predicate : String}
    {objects : List String} {isStatic : Bool} {a : AtomId} :
    (p.declareAll ds).2.Records predicate objects isStatic a ↔
      p.Records predicate objects isStatic a ∨
        (.atom predicate objects isStatic, .atom a) ∈ ds.zip (p.declareAll ds).1 := by
  induction ds generalizing p with
  | nil => simp [Problem.declareAll]
  | cons d rest ih =>
    simp only [Problem.declareAll, ih (made.declare d), (declare_cases made d).records_iff made,
      List.zip_cons_cons, List.mem_cons, or_assoc, eq_comm]

theorem objectName?_declareAll (made : p.Made) (ds : List Declaration) {o : ObjectId}
    {name : String} (named : p.objectName? o = some name) :
    (p.declareAll ds).2.objectName? o = some name := by
  induction ds generalizing p with
  | nil => exact named
  | cons d rest ih =>
    have inside : o.index < p.objectCount := (Array.getElem?_eq_some_iff.mp named).choose
    apply ih (made.declare d)
    rw [(declare_cases made d).objectName? inside, named]

/-- An object that was answered has the name it was declared with. -/
theorem objectName?_of_reply (made : p.Made) {ds : List Declaration} {o : ObjectId} {name : String}
    (replied : (.object name, .object o) ∈ ds.zip (p.declareAll ds).1) :
    (p.declareAll ds).2.objectName? o = some name := by
  induction ds generalizing p with
  | nil => cases replied
  | cons d rest ih =>
    rcases List.mem_cons.mp replied with first | later
    · cases first
      exact objectName?_declareAll (made.declare _) rest (objectName?_new p name)
    · exact ih (made.declare d) later

end

/-! ## Declarations on new problems -/

/-- The objects are the constants and what has been introduced. -/
theorem mem_objects_new {id : Nat} {v : Vocabulary} {ds : List Declaration} {name : String} :
    name ∈ ((new id v).declareAll ds).2.objects ↔ name ∈ v.constants ∨
      ∃ entry ∈ ds.zip ((new id v).declareAll ds).1, Introduces entry name := by
  have constants : name ∈ (new id v).objects ↔ name ∈ v.constants := by
    simp [new, mem_addObjects]
  rw [mem_objects_declareAll (.new id v), constants]

/-- The atoms are the declarations that have been accepted. -/
theorem records_new {id : Nat} {v : Vocabulary} {ds : List Declaration} {predicate : String}
    {objects : List String} {isStatic : Bool} {a : AtomId} :
    ((new id v).declareAll ds).2.Records predicate objects isStatic a ↔
      (.atom predicate objects isStatic, .atom a) ∈ ds.zip ((new id v).declareAll ds).1 := by
  have atoms : (new id v).atoms = #[] := (addObjects_grown ⟨⟨id⟩, v, #[], #[]⟩ _).1.atoms
  have none : ¬ (new id v).Records predicate objects isStatic a := by
    rintro ⟨atom, stored, _⟩
    simp [atom?, atoms] at stored
  rw [records_declareAll (.new id v)]
  exact or_iff_right none

end PlanFeatures.Problem
