import Std.Data.HashMap
import PlanFeatures.Domain.Problem

/-!
# Tables of a problem

While a problem is declared its objects and atoms are kept in tables.  Every entry has its own
index, and beside the entries stand the index for each name, the index for each predicate with
objects, and the static atoms.  An index is a word of 32 bits.

A declaration changes the tables step by step: the objects of an atom are added before the
atom is looked up, and they stay when it is refused.
-/

namespace PlanFeatures

structure ObjectEntry where
  index : ObjectId
  name : String

structure AtomEntry extends Atom where
  index : AtomId

structure Tables where
  id : ProblemId
  vocabulary : Vocabulary
  objects : Array ObjectEntry
  objectByName : Std.HashMap String ObjectId
  atoms : Array AtomEntry
  atomByKey : Std.HashMap (PredicateId × List ObjectId) AtomId
  /-- In the order of declaration. -/
  staticAtoms : Array AtomId

/-- What can be declared of a problem. -/
inductive Declaration where
  | object (name : String)
  | atom (predicate : String) (objects : List String) (isStatic : Bool)
deriving DecidableEq, Repr

/-- What a declaration answers. -/
inductive Reply where
  | object (o : ObjectId)
  | atom (a : AtomId)
  | refused (e : DomainError)
deriving DecidableEq, Repr

namespace Tables

/-- A number as a word of 32 bits. -/
def word (n : Nat) : Nat := n.toUInt32.toNat

/-- The problem that is kept in the tables. -/
def problem (t : Tables) : Problem where
  id := t.id
  vocabulary := t.vocabulary
  objects := t.objects.map ObjectEntry.name
  atoms := t.atoms.map AtomEntry.toAtom

/-! ## Objects -/

def findObject? (t : Tables) (name : String) : Option ObjectId := t.objectByName[name]?

/-- The object that a constant stands for. -/
def constantObject? (t : Tables) (k : ConstantId) : Option ObjectId := do
  t.findObject? (← t.vocabulary.constant? k)

/-- Adds an object whose name is not in the tables. -/
def pushObject (t : Tables) (name : String) : ObjectId × Tables :=
  let o : ObjectId := ⟨word t.objects.size⟩
  (o, { t with
    objects := t.objects.push ⟨o, name⟩
    objectByName := t.objectByName.insert name o })

def addObject (t : Tables) (name : String) : ObjectId × Tables :=
  match t.findObject? name with
  | some o => (o, t)
  | none => t.pushObject name

def addObjects (t : Tables) : List String → List ObjectId × Tables
  | [] => ([], t)
  | name :: rest =>
    let (o, t) := t.addObject name
    let (os, t) := t.addObjects rest
    (o :: os, t)

def new (id : Nat) (vocabulary : Vocabulary) : Tables :=
  (addObjects ⟨⟨id⟩, vocabulary, #[], ∅, #[], ∅, #[]⟩ vocabulary.constants.toList).2

/-! ## Atoms -/

def lookup? (t : Tables) (predicate : PredicateId) (objects : List ObjectId) : Option AtomId :=
  t.atomByKey[(predicate, objects)]?

def findAtom? (t : Tables) (predicate : String) (objects : List String) : Option AtomId := do
  let predicate ← t.vocabulary.findPredicate? predicate
  let objects ← objects.mapM t.findObject?
  t.lookup? predicate objects

/-- Adds an atom that is not in the tables. -/
def pushAtom (t : Tables) (atom : Atom) : AtomId × Tables :=
  let a : AtomId := ⟨word t.atoms.size⟩
  (a, { t with
    atoms := t.atoms.push ⟨atom, a⟩
    atomByKey := t.atomByKey.insert (atom.predicate, atom.objects) a
    staticAtoms := if atom.isStatic then t.staticAtoms.push a else t.staticAtoms })

/-- The atom with a predicate and objects, which is added when it is not in the tables. -/
def putAtom (t : Tables) (predicate : PredicateId) (objects : List ObjectId) (isStatic : Bool) :
    Reply × Tables :=
  match t.lookup? predicate objects with
  | none =>
    let (a, t) := t.pushAtom ⟨predicate, objects, isStatic⟩
    (.atom a, t)
  | some a =>
    match t.atoms[a.index]? with
    | none => (.refused (.foreignAtom a.index t.id.index), t)
    | some declared =>
      if declared.isStatic = isStatic then (.atom a, t)
      else (.refused (.conflictingAtom (t.problem.atomText declared.toAtom)), t)

def addAtom (t : Tables) (predicate : String) (objects : List String) (isStatic : Bool) :
    Reply × Tables :=
  match t.vocabulary.findPredicate? predicate with
  | none => (.refused (.unknownPredicate predicate), t)
  | some index =>
    let arity := (t.vocabulary.predicate? index).elim 0 Predicate.arity
    if arity ≠ objects.length then
      (.refused (.atomArity predicate arity objects.length), t)
    else
      let (objects, t) := t.addObjects objects
      t.putAtom index objects isStatic

/-! ## Declarations -/

def declare (t : Tables) : Declaration → Reply × Tables
  | .object name =>
    let (o, t) := t.addObject name
    (.object o, t)
  | .atom predicate objects isStatic => t.addAtom predicate objects isStatic

/-- The answers to several declarations, made from the first to the last. -/
def declareAll (t : Tables) : List Declaration → List Reply × Tables
  | [] => ([], t)
  | d :: rest =>
    let (reply, t) := t.declare d
    let (replies, t) := t.declareAll rest
    (reply :: replies, t)

end Tables
end PlanFeatures
