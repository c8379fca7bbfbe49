/-!
# Kinds of expressions

A concept denotes a set of objects, a role a set of object pairs, a boolean a
truth value and a numerical a number.
-/

namespace PlanFeatures

inductive Kind where
  | concept
  | role
  | boolean
  | numerical
deriving DecidableEq, Repr

namespace Kind

def all : List Kind := [concept, role, boolean, numerical]

def name : Kind → String
  | concept => "concept"
  | role => "role"
  | boolean => "boolean"
  | numerical => "numerical"

/-- Place in the order concept, role, boolean, numerical. -/
def position : Kind → Nat
  | concept => 0
  | role => 1
  | boolean => 2
  | numerical => 3

instance : Ord Kind := ⟨fun a b => compare a.position b.position⟩

/-- Letter that handles of the kind are printed with. -/
def letter : Kind → String
  | concept => "C"
  | role => "R"
  | boolean => "B"
  | numerical => "N"

/-- Booleans and numericals are the kinds of features. -/
def isFeature : Kind → Bool
  | boolean | numerical => true
  | concept | role => false

end Kind
end PlanFeatures
