import PlanFeatures.Number.Rounding

/-!
# Binary floating point

A number of the 64-bit binary interchange format, given by its bits.  The finite
ones are whole multiples of the least positive one, `2 ^ (-1074)`, which serves
as the unit here: everything that depends on a value is computed exactly from its
number of units.
-/

namespace PlanFeatures

structure Binary64 where
  bits : UInt64
deriving DecidableEq, Repr

namespace Binary64

/-- The unit is `2 ^ (-unitBits)`. -/
def unitBits : Nat := 1074

/-- Bits of the magnitude of infinity. -/
def infinityBits : Nat := 0x7FF <<< 52

def nan : Binary64 := ⟨0x7FF8000000000000⟩

/-- Bits without the sign. -/
def magnitudeBits (x : Binary64) : Nat := x.bits.toNat % (1 <<< 63)

def isNegative (x : Binary64) : Bool := 1 <<< 63 ≤ x.bits.toNat

def isNaN (x : Binary64) : Bool := infinityBits < x.magnitudeBits

def isFinite (x : Binary64) : Bool := x.magnitudeBits < infinityBits

/-- Number of units in the magnitude.  Below `2 ^ 52` the bits are that number;
above, each further value of the exponent doubles the step from one to the next. -/
def units (x : Binary64) : Nat :=
  let exponent := x.magnitudeBits >>> 52
  let fraction := x.magnitudeBits % (1 <<< 52)
  if exponent = 0 then fraction else ((1 <<< 52) + fraction) <<< (exponent - 1)

/-- Whether the number is finite and above zero. -/
def isPositive (x : Binary64) : Bool := x.isFinite && !x.isNegative && x.units != 0

/-- Bits of the magnitude nearest to `num / den` units.  The significand has 53
bits, or fewer where the step is one unit already; a significand that is rounded
up to `2 ^ 53` carries into the exponent. -/
def nearestBits (num den : Nat) : Nat :=
  let shift := Nat.log2 (num / den) - 52
  min ((shift <<< 52) + roundDiv num (den <<< shift)) infinityBits

/-- The number with a sign whose magnitude is nearest to `num / den` units. -/
def ofUnits (negative : Bool) (num den : Nat) : Binary64 :=
  ⟨(nearestBits num den + if negative then 1 <<< 63 else 0).toUInt64⟩

def infinity (negative : Bool) : Binary64 :=
  ⟨(infinityBits + if negative then 1 <<< 63 else 0).toUInt64⟩

end Binary64
end PlanFeatures
