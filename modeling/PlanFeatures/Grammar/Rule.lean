import PlanFeatures.Grammar.Kind

/-!
# Grammar rules

The rules of the description-logic grammar, in the order in which they are
applied within one complexity layer: first the rules for concepts, then those
for roles, booleans and numericals.  The order of the constructors is that
order, and `Rule.all` lists it.
-/

namespace PlanFeatures

inductive Rule where
  | conceptPrimitive
  | conceptBot
  | conceptTop
  | conceptOneOf
  | conceptNot
  | conceptAnd
  | conceptOr
  | conceptDiff
  | conceptProjection
  | conceptSome
  | conceptAll
  | conceptEqual
  | conceptSubset
  | rolePrimitive
  | roleTop
  | roleInverse
  | roleNot
  | roleAnd
  | roleOr
  | roleDiff
  | roleCompose
  | roleIdentity
  | roleRestrict
  | roleClosure
  | roleReflexiveClosure
  | roleClosureThrough
  | booleanNullary
  | booleanEmpty
  | booleanInclusion
  | numericalCount
  | numericalDistance
deriving DecidableEq, Repr

namespace Rule

/-- Every rule, in the order of enumeration. -/
def all : List Rule :=
  [conceptPrimitive, conceptBot, conceptTop, conceptOneOf, conceptNot, conceptAnd, conceptOr,
   conceptDiff, conceptProjection, conceptSome, conceptAll, conceptEqual, conceptSubset,
   rolePrimitive, roleTop, roleInverse, roleNot, roleAnd, roleOr, roleDiff, roleCompose,
   roleIdentity, roleRestrict, roleClosure, roleReflexiveClosure, roleClosureThrough,
   booleanNullary, booleanEmpty, booleanInclusion, numericalCount, numericalDistance]

/-- Number of rules. -/
abbrev count : Nat := 31

/-- Place of a rule in `Rule.all`. -/
def position : Rule → Fin count
  | conceptPrimitive => 0
  | conceptBot => 1
  | conceptTop => 2
  | conceptOneOf => 3
  | conceptNot => 4
  | conceptAnd => 5
  | conceptOr => 6
  | conceptDiff => 7
  | conceptProjection => 8
  | conceptSome => 9
  | conceptAll => 10
  | conceptEqual => 11
  | conceptSubset => 12
  | rolePrimitive => 13
  | roleTop => 14
  | roleInverse => 15
  | roleNot => 16
  | roleAnd => 17
  | roleOr => 18
  | roleDiff => 19
  | roleCompose => 20
  | roleIdentity => 21
  | roleRestrict => 22
  | roleClosure => 23
  | roleReflexiveClosure => 24
  | roleClosureThrough => 25
  | booleanNullary => 26
  | booleanEmpty => 27
  | booleanInclusion => 28
  | numericalCount => 29
  | numericalDistance => 30

instance : Ord Rule := ⟨fun a b => compare a.position.val b.position.val⟩

theorem position_lt (r : Rule) : r.position.val < count := r.position.isLt

theorem all_length : all.length = count := rfl

theorem mem_all (r : Rule) : r ∈ all := by
  cases r <;> decide

theorem nodup_all : all.Nodup := by decide

/-- The rule at a place is the one whose place it is. -/
theorem getElem?_position (r : Rule) : all[r.position.val]? = some r := by
  cases r <;> rfl

theorem position_get (i : Fin all.length) : (all.get i).position.val = i := by
  revert i
  decide

/-! ## Names -/

/-- The name that stands for the rule in the text of an expression. -/
def name : Rule → String
  | conceptPrimitive => "c_primitive"
  | conceptBot => "c_bot"
  | conceptTop => "c_top"
  | conceptOneOf => "c_one_of"
  | conceptNot => "c_not"
  | conceptAnd => "c_and"
  | conceptOr => "c_or"
  | conceptDiff => "c_diff"
  | conceptProjection => "c_projection"
  | conceptSome => "c_some"
  | conceptAll => "c_all"
  | conceptEqual => "c_equal"
  | conceptSubset => "c_subset"
  | rolePrimitive => "r_primitive"
  | roleTop => "r_top"
  | roleInverse => "r_inverse"
  | roleNot => "r_not"
  | roleAnd => "r_and"
  | roleOr => "r_or"
  | roleDiff => "r_diff"
  | roleCompose => "r_compose"
  | roleIdentity => "r_identity"
  | roleRestrict => "r_restrict"
  | roleClosure => "r_transitive_closure"
  | roleReflexiveClosure => "r_transitive_reflexive_closure"
  | roleClosureThrough => "r_til_c"
  | booleanNullary => "b_nullary"
  | booleanEmpty => "b_empty"
  | booleanInclusion => "b_inclusion"
  | numericalCount => "n_count"
  | numericalDistance => "n_concept_distance"

def ofName? (name : String) : Option Rule := all.find? fun r => r.name == name

theorem ofName?_name (r : Rule) : ofName? r.name = some r := by
  cases r <;> decide

/-! ## Classification -/

/-- The kind of expression that the rule builds. -/
def kind : Rule → Kind
  | conceptPrimitive | conceptBot | conceptTop | conceptOneOf | conceptNot | conceptAnd
  | conceptOr | conceptDiff | conceptProjection | conceptSome | conceptAll | conceptEqual
  | conceptSubset => .concept
  | rolePrimitive | roleTop | roleInverse | roleNot | roleAnd | roleOr | roleDiff | roleCompose
  | roleIdentity | roleRestrict | roleClosure | roleReflexiveClosure
  | roleClosureThrough => .role
  | booleanNullary | booleanEmpty | booleanInclusion => .boolean
  | numericalCount | numericalDistance => .numerical

/-- Whether the rule's arguments are not all expressions: it takes predicates,
constants or positions, or no argument at all. -/
def takesSymbols : Rule → Bool
  | conceptPrimitive | conceptBot | conceptTop | conceptOneOf | conceptProjection
  | rolePrimitive | roleTop | booleanNullary => true
  | _ => false

/-- Whether the order of the two operands does not matter. -/
def isCommutative : Rule → Bool
  | conceptAnd | conceptOr | conceptEqual | roleAnd | roleOr => true
  | _ => false

/-- What the rule's arguments are, in words. -/
def signature : Rule → String
  | conceptPrimitive => "(predicate, position)"
  | rolePrimitive => "(predicate, position, position)"
  | booleanNullary => "(predicate)"
  | conceptOneOf => "(constant)"
  | conceptProjection => "(role, position)"
  | conceptBot | conceptTop | roleTop => "()"
  | conceptNot | roleIdentity => "(concept)"
  | conceptAnd | conceptOr | conceptDiff => "(concept, concept)"
  | conceptSome | conceptAll | roleRestrict | roleClosureThrough => "(role, concept)"
  | conceptEqual | conceptSubset | roleAnd | roleOr | roleDiff | roleCompose => "(role, role)"
  | roleInverse | roleNot | roleClosure | roleReflexiveClosure => "(role)"
  | booleanEmpty | numericalCount => "(concept) or (role)"
  | booleanInclusion => "(concept, concept) or (role, role)"
  | numericalDistance => "(concept, role, concept)"

end Rule
end PlanFeatures
