import PlanFeatures.Toml.Library
import PlanFeatures.Toml.Parser

/-!
# The standard library for TOML

Any document can be read.  Those that can be written hold settings and tables of
settings; the settings come first, each on a line, and then the tables, each below
an empty line and its header.
-/

namespace PlanFeatures.Toml

/-! ## Reading values -/

namespace Value

/-- An integer below a bound. -/
def toNat? (bound : Nat) : Value → Option Nat
  | integer (.ofNat n) => if n < bound then some n else none
  | _ => none

/-- A float, or an integer to the nearest float. -/
def toBinary64? : Value → Option Binary64
  | float x => some x
  | integer i => some (Decimal.toBinary (i < 0) ⟨i.natAbs, 0⟩)
  | _ => none

def toBool? : Value → Option Bool
  | boolean b => some b
  | _ => none

def toList? : Value → Option (List Value)
  | array items => some items
  | _ => none

/-- A table with the fields as keys, or an array of the first fields in their order.
A date or time counts as a table without any of the keys. -/
def toRecord? (fields : List String) : Value → Option (List (String × Value))
  | table entries => some entries
  | array items => some (fields.zip items)
  | datetime _ => some []
  | _ => none

/-- Whether the value is an array or table that holds nothing. -/
def isHollow : Value → Bool
  | array items => items.isEmpty
  | table entries => entries.isEmpty
  | _ => false

/-- An alternative is given by its name, or as the only key of a table, for something
hollow. -/
def toVariant? : Value → Option String
  | string name => some name
  | table [(name, v)] => if v.isHollow then some name else none
  | _ => none

end Value

/-! ## Writing documents -/

/-- The text of a float always has a point in it, unless it is infinite or no
number. -/
def floatText (x : Binary64) : String :=
  if x.isNaN then "nan"
  else
    let text := x.text
    if !x.isFinite || text.toList.contains '.' then text else text ++ ".0"

namespace Value

def isTable : Value → Bool
  | table _ => true
  | _ => false

def isString : Value → Bool
  | string _ => true
  | _ => false

/-- A name as an element of a list. -/
def nameText : Value → String
  | string name => "\"" ++ name ++ "\""
  | _ => ""

/-- The text of a setting. -/
def text : Value → String
  | integer i => toString i
  | float x => floatText x
  | boolean b => toString b
  | array items => "[" ++ String.intercalate ", " (items.map nameText) ++ "]"
  | _ => ""

/-- Integers have 63 bits and a sign. -/
def isWritable : Value → Bool
  | integer i => Int64.minValue.toInt ≤ i ∧ i ≤ Int64.maxValue.toInt
  | float _ | boolean _ => true
  | array items => items.all isString
  | _ => false

end Value

/-- The lines of a table of settings. -/
def settingsText (entries : List (String × Value)) : String :=
  String.join (entries.map fun (key, v) => s!"{key} = {v.text}\n")

/-- A table with its header. -/
def tableText : String × Value → String
  | (name, .table entries) => "\n[" ++ name ++ "]\n" ++ settingsText entries
  | _ => ""

def write (document : List (String × Value)) : Option String :=
  if document.all fun (_, v) => v.settings.all Value.isWritable then
    let settings := document.filter fun (_, v) => !v.isTable
    let tables := document.filter fun (_, v) => v.isTable
    some (settingsText settings ++ String.join (tables.map tableText))
  else none

def Library.standard : Library where
  write := Toml.write
  read := parse
  word32? := Value.toNat? UInt32.size
  word64? := Value.toNat? UInt64.size
  float? := Value.toBinary64?
  boolean? := Value.toBool?
  elements? := Value.toList?
  record? := Value.toRecord?
  variant? := Value.toVariant?

end PlanFeatures.Toml
