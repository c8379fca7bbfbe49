/-!
# Indices of declared things

Predicates, constants, objects, atoms and problems are numbered from zero in the
order of their declaration.  Each kind of number has a type of its own, so an
atom index is never looked up as an object.  The text of an index is a letter
for its kind followed by the number.
-/

namespace PlanFeatures

/-- Position of a predicate in its vocabulary. -/
structure PredicateId where
  index : Nat
deriving DecidableEq, Ord, Hashable, Repr

/-- Position of a constant in its vocabulary. -/
structure ConstantId where
  index : Nat
deriving DecidableEq, Ord, Hashable, Repr

/-- Position of an object in its problem. -/
structure ObjectId where
  index : Nat
deriving DecidableEq, Ord, Hashable, Repr

/-- Position of a ground atom in its problem; static and dynamic atoms share
one numbering. -/
structure AtomId where
  index : Nat
deriving DecidableEq, Ord, Hashable, Repr

/-- Number that the caller gives to a problem.  States are compared by it, so
problems that are mixed in one sample need different numbers. -/
structure ProblemId where
  index : Nat
deriving DecidableEq, Ord, Hashable, Repr

/-! ## Texts -/

def PredicateId.text (p : PredicateId) : String := s!"p{p.index}"

def ConstantId.text (k : ConstantId) : String := s!"k{k.index}"

def ObjectId.text (o : ObjectId) : String := s!"o{o.index}"

def AtomId.text (a : AtomId) : String := s!"a{a.index}"

def ProblemId.text (i : ProblemId) : String := s!"I{i.index}"

end PlanFeatures
