import PlanFeatures.Number.Binary64

/-!
# TOML values

What a TOML document holds.  Tables keep their keys in the order of the document.
A date or time is kept as its text.
-/

namespace PlanFeatures.Toml

inductive Value where
  | string (s : String)
  | integer (i : Int)
  | float (x : Binary64)
  | boolean (b : Bool)
  | datetime (text : String)
  | array (items : List Value)
  | table (entries : List (String × Value))
deriving Repr

/-- Characters of a key without quotation marks. -/
def isBareKeyPart (c : Char) : Bool := c.isAlphanum || c == '_' || c == '-'

/-- A name that is a key without quotation marks. -/
structure IsBare (name : String) : Prop where
  some : name.toList ≠ []
  plain : ∀ c ∈ name.toList, isBareKeyPart c = true

end PlanFeatures.Toml
