import PlanFeatures.Domain.Tables
import PlanFeatures.Proofs.Domain.Names

/-!
# What declarations do

The objects of an atom are added before the atom is looked up.  Atoms have objects of the
problem, so one that is found has been looked up without adding any: a declaration that is
refused, or made a second time, changes nothing.
-/

namespace PlanFeatures

/-- What no two atoms of a problem share. -/
def Atom.key (a : Atom) : PredicateId × List ObjectId := (a.predicate, a.objects)

namespace Problem

/-- A problem with a declaration; when it is refused, the problem as it was. -/
def declare (p : Problem) : Declaration → Reply × Problem
  | .object name => (.object (p.addObject name).1, (p.addObject name).2)
  | .atom predicate objects isStatic =>
    match p.addAtom predicate objects isStatic with
    | .ok (a, p') => (.atom a, p')
    | .error e => (.refused e, p)

def declareAll (p : Problem) : List Declaration → List Reply × Problem
  | [] => ([], p)
  | d :: rest =>
    ((p.declare d).1 :: ((p.declare d).2.declareAll rest).1, ((p.declare d).2.declareAll rest).2)

/-! ## Looking up -/

section
variable {p : Problem}

theorem objectName?_of_findObject? {name : String} {o : ObjectId}
    (found : p.findObject? name = some o) : p.objectName? o = some name := by
  obtain ⟨i, place, rfl⟩ := Option.map_eq_some_iff.mp found
  obtain ⟨inside, same, _⟩ := Array.findIdx?_eq_some_iff_getElem.mp place
  rw [objectName?, Array.getElem?_eq_getElem inside, eq_of_beq same]

theorem findObject?_eq_some_iff (distinct : DistinctNames p.objects) {name : String}
    {o : ObjectId} : p.findObject? name = some o ↔ p.objectName? o = some name := by
  constructor
  · exact objectName?_of_findObject?
  · intro named
    exact congrArg (Option.map ObjectId.mk) (distinct.findIdx? named)

theorem name_of_findPredicate? {v : Vocabulary} {name : String} {index : PredicateId}
    {declared : Predicate} (found : v.findPredicate? name = some index)
    (known : v.predicate? index = some declared) : declared.name = name := by
  obtain ⟨i, place, rfl⟩ := Option.map_eq_some_iff.mp found
  obtain ⟨inside, same, _⟩ := Array.findIdx?_eq_some_iff_getElem.mp place
  cases (Array.getElem?_eq_getElem inside).symm.trans known
  exact eq_of_beq same

theorem mapM_findObject?_iff (distinct : DistinctNames p.objects) {names : List String}
    {objects : List ObjectId} :
    names.mapM p.findObject? = some objects ↔
      objects.map p.objectName? = names.map some := by
  induction names generalizing objects with
  | nil => simp
  | cons name rest ih =>
    simp only [List.mapM_cons, Option.bind_eq_bind, Option.bind_eq_some_iff, Option.pure_def,
      Option.some.injEq, findObject?_eq_some_iff distinct, ih]
    constructor
    · rintro ⟨o, first, others, later, rfl⟩
      simp [first, later]
    · intro same
      cases objects with
      | nil => simp at same
      | cons o others =>
        simp only [List.map_cons, List.cons.injEq] at same
        exact ⟨o, same.1, others, same.2, rfl⟩

theorem lookup?_eq (p : Problem) (predicate : PredicateId) (objects : List ObjectId) :
    p.lookup? predicate objects =
      (p.atoms.findIdx? fun a => a.key == (predicate, objects)).map AtomId.mk := by
  have same : (fun a : Atom => decide (a.predicate = predicate ∧ a.objects = objects))
      = fun a => a.key == (predicate, objects) := by
    funext a
    rw [Bool.eq_iff_iff]
    simp [Atom.key]
  rw [lookup?, same]

/-- An atom that is found has been stored with the predicate and the objects. -/
theorem of_lookup?_eq_some {predicate : PredicateId} {objects : List ObjectId} {a : AtomId}
    (found : p.lookup? predicate objects = some a) :
    ∃ atom, p.atom? a = some atom ∧ atom.key = (predicate, objects) := by
  rw [lookup?_eq, Option.map_eq_some_iff] at found
  obtain ⟨i, place, rfl⟩ := found
  obtain ⟨inside, same, _⟩ := Array.findIdx?_eq_some_iff_getElem.mp place
  exact ⟨p.atoms[i], Array.getElem?_eq_getElem inside, eq_of_beq same⟩

/-- The atom is the one with a predicate and objects of these names. -/
structure NamesAtom (p : Problem) (a : Atom) (predicate : String) (objects : List String) :
    Prop where
  predicate : p.vocabulary.findPredicate? predicate = some a.predicate
  objects : a.objects.map p.objectName? = objects.map some

/-- The text of an atom is made of the names that it is declared with. -/
theorem NamesAtom.text {atom : Atom} {predicate : String} {objects : List String}
    (names : p.NamesAtom atom predicate objects) :
    p.atomText atom = predicate ++ "(" ++ String.intercalate "," objects ++ ")" := by
  obtain ⟨declared, known⟩ := findPredicate?_declared names.predicate
  have texts : atom.objects.map (fun o => (p.objectName? o).getD "") = objects := by
    have mapped := congrArg (List.map fun name => Option.getD name "") names.objects
    simpa [Function.comp_def] using mapped
  simp only [atomText, known, Option.elim_some, texts, name_of_findPredicate? names.predicate known]

end

/-! ## Adding objects -/

section
variable {p : Problem}

theorem mem_addObject {name other : String} :
    other ∈ (p.addObject name).2.objects ↔ other ∈ p.objects ∨ other = name := by
  unfold addObject
  split
  next o found =>
    have known : name ∈ p.objects := Array.mem_of_getElem? (objectName?_of_findObject? found)
    constructor
    · exact Or.inl
    · rintro (old | rfl)
      · exact old
      · exact known
  next => simp

theorem mem_addObjects {names : List String} {other : String} :
    other ∈ (p.addObjects names).2.objects ↔ other ∈ p.objects ∨ other ∈ names := by
  induction names generalizing p with
  | nil => simp [addObjects]
  | cons name rest ih =>
    simp only [addObjects, ih, mem_addObject, List.mem_cons]
    grind

/-- Objects keep their names. -/
theorem objectName?_addObject {name : String} {o : ObjectId} (inside : o.index < p.objectCount) :
    (p.addObject name).2.objectName? o = p.objectName? o := by
  unfold addObject
  split
  next => rfl
  next =>
    have old : o.index ≠ p.objects.size := Nat.ne_of_lt inside
    simp only [objectName?, Array.getElem?_push, if_neg old]

theorem objectName?_addObjects {names : List String} {o : ObjectId}
    (inside : o.index < p.objectCount) :
    (p.addObjects names).2.objectName? o = p.objectName? o := by
  induction names generalizing p with
  | nil => rfl
  | cons name rest ih =>
    have grown := (addObject_grown p name).1.objects
    simp only [addObjects, ih (Nat.lt_of_lt_of_le inside grown), objectName?_addObject inside]

theorem objectName?_new (p : Problem) (name : String) :
    (p.addObject name).2.objectName? (p.addObject name).1 = some name := by
  unfold addObject
  split
  next found => exact objectName?_of_findObject? found
  next => simp [objectName?]

/-- The objects that are added have the names. -/
theorem map_objectName?_addObjects (p : Problem) (names : List String) :
    (p.addObjects names).1.map (p.addObjects names).2.objectName? = names.map some := by
  induction names generalizing p with
  | nil => rfl
  | cons name rest ih =>
    simp only [addObjects, List.map_cons, ih]
    rw [objectName?_addObjects (addObject_grown p name).2, objectName?_new]

/-- Objects that the problem has are not added. -/
theorem addObjects_known {names : List String} {objects : List ObjectId}
    (known : names.mapM p.findObject? = some objects) : p.addObjects names = (objects, p) := by
  induction names generalizing objects with
  | nil => simp at known; simp [addObjects, known]
  | cons name rest ih =>
    simp only [List.mapM_cons, Option.bind_eq_bind, Option.bind_eq_some_iff, Option.pure_def,
      Option.some.injEq] at known
    obtain ⟨o, first, others, later, rfl⟩ := known
    simp [addObjects, addObject, first, ih later]

/-- An object that is new has an index past the others. -/
theorem known_of_inside {names : List String}
    (inside : ∀ o ∈ (p.addObjects names).1, o.index < p.objectCount) :
    names.mapM p.findObject? = some (p.addObjects names).1 := by
  induction names with
  | nil => rfl
  | cons name rest ih =>
    cases found : p.findObject? name with
    | none =>
      have past := inside ⟨p.objectCount⟩ (by simp [addObjects, addObject, found, objectCount])
      exact absurd past (Nat.lt_irrefl _)
    | some o =>
      have same : p.addObject name = (o, p) := by simp [addObject, found]
      simp only [addObjects, same, List.forall_mem_cons] at inside ⊢
      simp [found, ih inside.2]

end

/-! ## One declaration -/

/-- Why an atom is refused, with the error that is given. -/
inductive Refuses (p : Problem) (predicate : String) (objects : List String) (isStatic : Bool) :
    DomainError → Prop where
  | unknown (absent : p.vocabulary.findPredicate? predicate = none) :
      Refuses p predicate objects isStatic (.unknownPredicate predicate)
  | arity {index : PredicateId} {declared : Predicate}
      (found : p.vocabulary.findPredicate? predicate = some index)
      (known : p.vocabulary.predicate? index = some declared)
      (differ : declared.arity ≠ objects.length) :
      Refuses p predicate objects isStatic (.atomArity predicate declared.arity objects.length)
  | conflict {a : AtomId} {atom : Atom} (stored : p.atom? a = some atom)
      (names : p.NamesAtom atom predicate objects) (differ : atom.isStatic ≠ isStatic) :
      Refuses p predicate objects isStatic
        (.conflictingAtom (predicate ++ "(" ++ String.intercalate "," objects ++ ")"))

/-- Everything that a declaration can do. -/
inductive Declares (p : Problem) : Declaration → Reply → Problem → Prop where
  | object (name : String) :
      Declares p (.object name) (.object (p.addObject name).1) (p.addObject name).2
  | known {predicate : String} {objects : List String} {a : AtomId} {atom : Atom}
      (stored : p.atom? a = some atom) (names : p.NamesAtom atom predicate objects) :
      Declares p (.atom predicate objects atom.isStatic) (.atom a) p
  | new {predicate : String} {objects : List String} {isStatic : Bool} {index : PredicateId}
      {declared : Predicate} (found : p.vocabulary.findPredicate? predicate = some index)
      (known : p.vocabulary.predicate? index = some declared)
      (arity : declared.arity = objects.length)
      (absent : p.lookup? index (p.addObjects objects).1 = none) :
      Declares p (.atom predicate objects isStatic) (.atom ⟨p.atoms.size⟩)
        { (p.addObjects objects).2 with
          atoms := p.atoms.push ⟨index, (p.addObjects objects).1, isStatic⟩ }
  | refused {predicate : String} {objects : List String} {isStatic : Bool} {e : DomainError}
      (refuses : p.Refuses predicate objects isStatic e) :
      Declares p (.atom predicate objects isStatic) (.refused e) p

section
variable {p : Problem}

/-- An atom that is found has been looked up without adding objects. -/
theorem addObjects_of_lookup? (made : p.Made) {index : PredicateId} {objects : List String}
    {a : AtomId} (found : p.lookup? index (p.addObjects objects).1 = some a) :
    (p.addObjects objects).2 = p ∧ ∃ atom, p.atom? a = some atom ∧ atom.predicate = index ∧
      atom.objects.map p.objectName? = objects.map some := by
  obtain ⟨atom, stored, key⟩ := of_lookup?_eq_some found
  obtain ⟨rfl, same⟩ : atom.predicate = index ∧ atom.objects = (p.addObjects objects).1 := by
    simpa [Atom.key] using key
  have fits := made.fits atom (Array.mem_of_getElem? stored)
  have known : objects.mapM p.findObject? = some (p.addObjects objects).1 :=
    known_of_inside (same ▸ fits.objects)
  have names := (mapM_findObject?_iff made.wellNamed.objects).mp known
  rw [addObjects_known known]
  exact ⟨rfl, atom, stored, rfl, same ▸ names⟩

theorem lookup?_addObjects {names : List String} {index : PredicateId}
    {objects : List ObjectId} :
    (p.addObjects names).2.lookup? index objects = p.lookup? index objects := by
  rw [lookup?, lookup?, (addObjects_grown p names).1.atoms]

section
variable {predicate : String} {objects : List String} {isStatic : Bool} {index : PredicateId}
  {declared : Predicate}

theorem declare_unknown (absent : p.vocabulary.findPredicate? predicate = none) :
    p.declare (.atom predicate objects isStatic) =
      (.refused (.unknownPredicate predicate), p) := by
  have result : p.addAtom predicate objects isStatic = .error (.unknownPredicate predicate) := by
    simp only [addAtom, absent]
    rfl
  simp only [declare, result]

variable (found : p.vocabulary.findPredicate? predicate = some index)
  (known : p.vocabulary.predicate? index = some declared)
include found known

theorem declare_arity (differ : declared.arity ≠ objects.length) :
    p.declare (.atom predicate objects isStatic) =
      (.refused (.atomArity predicate declared.arity objects.length), p) := by
  have result : p.addAtom predicate objects isStatic
      = .error (.atomArity predicate declared.arity objects.length) := by
    simp only [addAtom, found, known, Option.elim_some, ne_eq, differ, not_false_eq_true, if_true]
    rfl
  simp only [declare, result]

variable (arity : declared.arity = objects.length)
include arity

theorem declare_new (absent : p.lookup? index (p.addObjects objects).1 = none) :
    p.declare (.atom predicate objects isStatic) = (.atom ⟨p.atoms.size⟩,
      { (p.addObjects objects).2 with
        atoms := p.atoms.push ⟨index, (p.addObjects objects).1, isStatic⟩ }) := by
  have same := (addObjects_grown p objects).1.atoms
  have result : p.addAtom predicate objects isStatic = .ok (⟨p.atoms.size⟩,
      { (p.addObjects objects).2 with
        atoms := p.atoms.push ⟨index, (p.addObjects objects).1, isStatic⟩ }) := by
    simp only [addAtom, found, known, Option.elim_some, ne_eq, arity, not_true_eq_false, if_false,
      lookup?_addObjects, absent, same]
    rfl
  simp only [declare, result]

theorem declare_listed (made : p.Made) {a : AtomId} {atom : Atom}
    (listed : p.lookup? index (p.addObjects objects).1 = some a)
    (stored : p.atom? a = some atom) :
    p.declare (.atom predicate objects isStatic) =
      if atom.isStatic = isStatic then (.atom a, p)
      else (.refused (.conflictingAtom (p.atomText atom)), p) := by
  have nothing := (addObjects_of_lookup? made listed).1
  have result : p.addAtom predicate objects isStatic =
      if atom.isStatic = isStatic then .ok (a, p)
      else .error (.conflictingAtom (p.atomText atom)) := by
    simp only [addAtom, found, known, Option.elim_some, ne_eq, arity, not_true_eq_false, if_false,
      nothing, listed, stored]
    rfl
  by_cases flag : atom.isStatic = isStatic <;> simp only [declare, result, flag, if_true, if_false]

end

theorem declares_atom (made : p.Made) (predicate : String) (objects : List String)
    (isStatic : Bool) : p.Declares (.atom predicate objects isStatic)
      (p.declare (.atom predicate objects isStatic)).1
      (p.declare (.atom predicate objects isStatic)).2 := by
  cases found : p.vocabulary.findPredicate? predicate with
  | none =>
    rw [declare_unknown found]
    exact .refused (.unknown found)
  | some index =>
    obtain ⟨declared, known⟩ := findPredicate?_declared found
    by_cases arity : declared.arity = objects.length
    · cases listed : p.lookup? index (p.addObjects objects).1 with
      | none =>
        rw [declare_new found known arity listed]
        exact .new found known arity listed
      | some a =>
        obtain ⟨_, atom, stored, rfl, names⟩ := addObjects_of_lookup? made listed
        have named : p.NamesAtom atom predicate objects := ⟨found, names⟩
        rw [declare_listed found known arity made listed stored]
        split
        next flag => exact flag ▸ .known stored named
        next flag => exact named.text ▸ .refused (.conflict stored named flag)
    · rw [declare_arity found known arity]
      exact .refused (.arity found known arity)

theorem declare_cases (made : p.Made) (d : Declaration) :
    p.Declares d (p.declare d).1 (p.declare d).2 := by
  cases d with
  | object name => exact .object name
  | atom predicate objects isStatic => exact declares_atom made predicate objects isStatic

theorem Made.declare (made : p.Made) (d : Declaration) : (p.declare d).2.Made := by
  cases d with
  | object name => exact .object made name
  | atom predicate objects isStatic =>
    cases added : p.addAtom predicate objects isStatic with
    | error e => simpa only [Problem.declare, added] using made
    | ok result => simpa only [Problem.declare, added] using Made.atom made added

end

/-! ## What a declaration leaves -/

section
variable {p p' : Problem} {d : Declaration} {reply : Reply}

theorem Declares.vocabulary (declares : p.Declares d reply p') :
    p'.vocabulary = p.vocabulary := by
  cases declares with
  | object name => exact (addObject_grown p name).1.vocabulary
  | new => exact (addObjects_grown p _).1.vocabulary
  | known | refused => rfl

theorem Declares.objectName? (declares : p.Declares d reply p') {o : ObjectId}
    (inside : o.index < p.objectCount) : p'.objectName? o = p.objectName? o := by
  cases declares with
  | object name => exact objectName?_addObject inside
  | new => exact objectName?_addObjects inside
  | known | refused => rfl

/-- Atoms keep their index and what they are. -/
theorem Declares.atom? (declares : p.Declares d reply p') {a : AtomId} {atom : Atom}
    (stored : p.atom? a = some atom) : p'.atom? a = some atom := by
  cases declares with
  | object name => rw [Problem.atom?, (addObject_grown p name).1.atoms]; exact stored
  | new =>
    have inside : a.index ≠ p.atoms.size :=
      Nat.ne_of_lt (Array.getElem?_eq_some_iff.mp stored).choose
    simpa only [Problem.atom?, Array.getElem?_push, if_neg inside] using stored
  | known | refused => exact stored

/-- Names of atoms stay. -/
theorem Declares.namesAtom (declares : p.Declares d reply p') {atom : Atom} (fits : p.Fits atom)
    {predicate : String} {objects : List String} :
    p'.NamesAtom atom predicate objects ↔ p.NamesAtom atom predicate objects := by
  have names : atom.objects.map p'.objectName? = atom.objects.map p.objectName? := by
    apply List.map_congr_left
    intro o member
    exact declares.objectName? (fits.objects o member)
  constructor
  · intro named
    exact ⟨declares.vocabulary ▸ named.predicate, names ▸ named.objects⟩
  · intro named
    exact ⟨declares.vocabulary.symm ▸ named.predicate, names.symm ▸ named.objects⟩

end

theorem distinctKeys_push {p : Problem} (distinct : UniquelyNamed Atom.key p.atoms) {atom : Atom}
    (absent : p.lookup? atom.predicate atom.objects = none) :
    UniquelyNamed Atom.key (p.atoms.push atom) := by
  rw [lookup?_eq, Option.map_eq_none_iff] at absent
  exact distinct.push absent

/-- No two atoms have the same predicate and objects. -/
theorem Made.distinctKeys {p : Problem} (made : p.Made) : UniquelyNamed Atom.key p.atoms := by
  induction made with
  | new id v =>
    rw [Problem.new, (addObjects_grown ⟨⟨id⟩, v, #[], #[]⟩ _).1.atoms]
    exact uniquelyNamed_empty _
  | object made name ih =>
    rw [(addObject_grown _ name).1.atoms]
    exact ih
  | @atom p p' predicate objects isStatic a made added ih =>
    have declares := declares_atom made predicate objects isStatic
    simp only [Problem.declare, added] at declares
    cases declares with
    | known => exact ih
    | new _ _ _ absent => exact distinctKeys_push ih absent

theorem Made.lookup? {p : Problem} (made : p.Made) {a : AtomId} {atom : Atom}
    (stored : p.atom? a = some atom) : p.lookup? atom.predicate atom.objects = some a := by
  rw [lookup?_eq]
  exact congrArg (Option.map AtomId.mk) (made.distinctKeys.findIdx? stored)

/-- An atom that is stored is found under its names. -/
theorem Made.findAtom? {p : Problem} (made : p.Made) {predicate : String} {objects : List String}
    {a : AtomId} : p.findAtom? predicate objects = some a ↔
      ∃ atom, p.atom? a = some atom ∧ p.NamesAtom atom predicate objects := by
  simp only [Problem.findAtom?, Option.bind_eq_bind, Option.bind_eq_some_iff,
    mapM_findObject?_iff made.wellNamed.objects]
  constructor
  · rintro ⟨index, found, ids, same, listed⟩
    obtain ⟨atom, stored, key⟩ := of_lookup?_eq_some listed
    cases key
    exact ⟨atom, stored, found, same⟩
  · rintro ⟨atom, stored, found, same⟩
    exact ⟨_, found, _, same, made.lookup? stored⟩

/-- These are all reasons for an error, and each has its own error. -/
theorem declare_refused_iff {p : Problem} (made : p.Made) {predicate : String}
    {objects : List String} {isStatic : Bool} {e : DomainError} :
    (p.declare (.atom predicate objects isStatic)).1 = .refused e ↔
      p.Refuses predicate objects isStatic e := by
  constructor
  · intro refused
    have declares := declares_atom made predicate objects isStatic
    rw [refused] at declares
    generalize (p.declare (.atom predicate objects isStatic)).2 = p' at declares
    cases declares with
    | refused refuses => exact refuses
  · intro refuses
    cases refuses with
    | unknown absent => rw [declare_unknown absent]
    | arity found known differ => rw [declare_arity found known differ]
    | @conflict a atom stored names differ =>
      have fits := made.fits atom (Array.mem_of_getElem? stored)
      obtain ⟨declared, known, arity⟩ := fits.predicate
      have ids := addObjects_known ((mapM_findObject?_iff made.wellNamed.objects).mpr names.objects)
      have length : atom.objects.length = objects.length := by
        simpa using congrArg List.length names.objects
      have listed : p.lookup? atom.predicate (p.addObjects objects).1 = some a := by
        rw [ids]
        exact made.lookup? stored
      rw [declare_listed names.predicate known (arity.symm.trans length) made listed stored,
        if_neg differ, names.text]

theorem declare_unchanged {p : Problem} (made : p.Made) {d : Declaration} {e : DomainError}
    (refused : (p.declare d).1 = .refused e) : (p.declare d).2 = p := by
  have declares := declare_cases made d
  rw [refused] at declares
  generalize (p.declare d).2 = p' at declares
  cases declares with
  | refused => rfl

end Problem
end PlanFeatures
