import PlanFeatures.Domain.Symbol
import PlanFeatures.Domain.Error

/-!
# Vocabularies

The predicates, each with its arity, and the constants of a planning domain.
Predicates and constants are identified by their names; both are numbered in the
order of their first declaration, which fixes the order in which primitive
expressions are enumerated.
-/

namespace PlanFeatures

structure Predicate where
  name : String
  arity : Nat
deriving DecidableEq, Repr

/-- Name and arity, as in `on/2`. -/
def Predicate.text (p : Predicate) : String := s!"{p.name}/{p.arity}"

structure Vocabulary where
  predicates : Array Predicate
  constants : Array String
deriving DecidableEq, Repr

namespace Vocabulary

def empty : Vocabulary := ⟨#[], #[]⟩

instance : Inhabited Vocabulary := ⟨empty⟩

def predicate? (v : Vocabulary) (p : PredicateId) : Option Predicate := v.predicates[p.index]?

def constant? (v : Vocabulary) (k : ConstantId) : Option String := v.constants[k.index]?

def findPredicate? (v : Vocabulary) (name : String) : Option PredicateId :=
  (v.predicates.findIdx? fun p => p.name == name).map PredicateId.mk

def findConstant? (v : Vocabulary) (name : String) : Option ConstantId :=
  (v.constants.findIdx? fun k => k == name).map ConstantId.mk

/-- Declares a predicate.  A second declaration with the same arity gives the
index of the first. -/
def addPredicate (v : Vocabulary) (name : String) (arity : Nat) :
    Except DomainError (PredicateId × Vocabulary) :=
  match v.findPredicate? name with
  | none => .ok (⟨v.predicates.size⟩, { v with predicates := v.predicates.push ⟨name, arity⟩ })
  | some p =>
    match v.predicate? p with
    | some declared =>
      if declared.arity = arity then .ok (p, v)
      else .error (.conflictingPredicate name arity declared.arity)
    | none => .error (.unknownPredicate name)

/-- Declares a constant; a second declaration gives the index of the first. -/
def addConstant (v : Vocabulary) (name : String) : ConstantId × Vocabulary :=
  match v.findConstant? name with
  | some k => (k, v)
  | none => (⟨v.constants.size⟩, { v with constants := v.constants.push name })

/-- The indices of the predicates with what they stand for. -/
def predicateList (v : Vocabulary) : List (PredicateId × Predicate) :=
  v.predicates.toList.zipIdx.map fun (p, i) => (⟨i⟩, p)

/-- The indices of the constants with their names. -/
def constantList (v : Vocabulary) : List (ConstantId × String) :=
  v.constants.toList.zipIdx.map fun (k, i) => (⟨i⟩, k)

end Vocabulary
end PlanFeatures
