/-!
# Refused declarations

Why a predicate, an atom or a state is refused.
-/

namespace PlanFeatures

inductive DomainError where
  /-- No predicate has the name. -/
  | unknownPredicate (name : String)
  /-- The predicate has been declared with another arity before. -/
  | conflictingPredicate (name : String) (arity existing : Nat)
  /-- An atom has more or fewer objects than its predicate takes. -/
  | atomArity (predicate : String) (arity got : Nat)
  /-- The atom has been declared before, but static where it is now dynamic or
  dynamic where it is now static. -/
  | conflictingAtom (atom : String)
  /-- The problem has no atom with the index. -/
  | foreignAtom (atom problem : Nat)
  /-- States list dynamic atoms only. -/
  | staticAtomInState (atom : String)
deriving DecidableEq, Repr

def DomainError.message : DomainError → String
  | unknownPredicate name => s!"unknown predicate `{name}`"
  | conflictingPredicate name arity existing =>
    s!"predicate `{name}` is already declared with arity {existing}, not {arity}"
  | atomArity predicate arity got => s!"atom over `{predicate}/{arity}` given {got} objects"
  | conflictingAtom atom => s!"atom `{atom}` is already declared with a different static flag"
  | foreignAtom atom problem => s!"atom index {atom} does not belong to instance {problem}"
  | staticAtomInState atom => s!"static atom `{atom}` cannot be part of a state"

end PlanFeatures
