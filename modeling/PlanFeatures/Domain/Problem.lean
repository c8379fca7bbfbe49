import PlanFeatures.Domain.Vocabulary

/-!
# Problems

A problem has objects and ground atoms over a vocabulary.  Objects come into
being when they are first named, and every constant of the vocabulary is one.  A
static atom is true in all states of the problem; an atom that has been declared
static cannot be declared dynamic later, nor the other way round.
-/

namespace PlanFeatures

/-- A predicate applied to objects. -/
structure Atom where
  predicate : PredicateId
  objects : List ObjectId
  isStatic : Bool
deriving DecidableEq, Repr

structure Problem where
  id : ProblemId
  vocabulary : Vocabulary
  /-- Names of the objects, by index. -/
  objects : Array String
  atoms : Array Atom
deriving DecidableEq, Repr

namespace Problem

/-! ## Objects -/

def objectCount (p : Problem) : Nat := p.objects.size

def objectName? (p : Problem) (o : ObjectId) : Option String := p.objects[o.index]?

def findObject? (p : Problem) (name : String) : Option ObjectId :=
  (p.objects.findIdx? fun o => o == name).map ObjectId.mk

/-- The index of an object, which is new if the name is. -/
def addObject (p : Problem) (name : String) : ObjectId × Problem :=
  match p.findObject? name with
  | some o => (o, p)
  | none => (⟨p.objects.size⟩, { p with objects := p.objects.push name })

/-- The indices of several objects, added from the first to the last. -/
def addObjects (p : Problem) : List String → List ObjectId × Problem
  | [] => ([], p)
  | name :: rest =>
    let (o, p) := p.addObject name
    let (os, p) := p.addObjects rest
    (o :: os, p)

/-- The problem without atoms whose objects are the constants. -/
def new (id : Nat) (vocabulary : Vocabulary) : Problem :=
  (addObjects ⟨⟨id⟩, vocabulary, #[], #[]⟩ vocabulary.constants.toList).2

/-- The object that a constant stands for. -/
def constantObject? (p : Problem) (k : ConstantId) : Option ObjectId := do
  p.findObject? (← p.vocabulary.constant? k)

/-! ## Atoms -/

def atom? (p : Problem) (a : AtomId) : Option Atom := p.atoms[a.index]?

/-- The index of the atom with a predicate and objects. -/
def lookup? (p : Problem) (predicate : PredicateId) (objects : List ObjectId) : Option AtomId :=
  (p.atoms.findIdx? fun a => a.predicate = predicate ∧ a.objects = objects).map AtomId.mk

/-- The index of an atom given by names; unknown names have none. -/
def findAtom? (p : Problem) (predicate : String) (objects : List String) : Option AtomId := do
  let predicate ← p.vocabulary.findPredicate? predicate
  let objects ← objects.mapM p.findObject?
  p.lookup? predicate objects

/-- Text of an atom, as in `on(a,b)`. -/
def atomText (p : Problem) (a : Atom) : String :=
  let predicate := (p.vocabulary.predicate? a.predicate).elim "" Predicate.name
  let objects := a.objects.map fun o => (p.objectName? o).getD ""
  predicate ++ "(" ++ String.intercalate "," objects ++ ")"

/-- Declares an atom by names.  Its objects are added where they are new; a second
declaration gives the index of the first. -/
def addAtom (p : Problem) (predicate : String) (objects : List String) (isStatic : Bool) :
    Except DomainError (AtomId × Problem) := do
  let some index := p.vocabulary.findPredicate? predicate
    | throw (.unknownPredicate predicate)
  let arity := (p.vocabulary.predicate? index).elim 0 Predicate.arity
  if arity ≠ objects.length then
    throw (.atomArity predicate arity objects.length)
  let (objects, p) := p.addObjects objects
  match p.lookup? index objects with
  | none =>
    return (⟨p.atoms.size⟩, { p with atoms := p.atoms.push ⟨index, objects, isStatic⟩ })
  | some a =>
    match p.atom? a with
    | some declared =>
      if declared.isStatic = isStatic then return (a, p)
      else throw (.conflictingAtom (p.atomText declared))
    | none => throw (.foreignAtom a.index p.id.index)

/-- The indices of the atoms with what they stand for. -/
def atomList (p : Problem) : List (AtomId × Atom) :=
  p.atoms.toList.zipIdx.map fun (a, i) => (⟨i⟩, a)

/-- The indices of the static atoms, in increasing order. -/
def staticAtoms (p : Problem) : List AtomId :=
  p.atomList.filterMap fun (i, a) => if a.isStatic then some i else none

end Problem
end PlanFeatures
