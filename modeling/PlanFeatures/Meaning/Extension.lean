import PlanFeatures.Grammar.Kind
import PlanFeatures.Meaning.Relation

/-!
# Extensions

What an expression denotes in a state with `n` objects.  Numbers are 32-bit words.
-/

namespace PlanFeatures

inductive Extension (n : Nat) where
  | concept (set : ObjectSet n)
  | role (relation : Relation n)
  | boolean (value : Bool)
  | numerical (value : UInt32)
deriving DecidableEq, Repr

def Extension.kind {n : Nat} : Extension n → Kind
  | concept _ => .concept
  | role _ => .role
  | boolean _ => .boolean
  | numerical _ => .numerical

/-- An extension together with the number of objects it is over. -/
structure SizedExtension where
  size : Nat
  extension : Extension size
deriving DecidableEq, Repr

/-- The value of a feature in a state. -/
inductive FeatureValue where
  | boolean (value : Bool)
  | numerical (value : UInt32)
deriving DecidableEq, Repr

namespace FeatureValue

def ofExtension? {n : Nat} : Extension n → Option FeatureValue
  | .boolean b => some (boolean b)
  | .numerical v => some (numerical v)
  | .concept _ | .role _ => none

def text : FeatureValue → String
  | boolean b => if b then "true" else "false"
  | numerical v => if v = unreachable then "inf" else toString v.toNat

end FeatureValue
end PlanFeatures
