/-!
# Rounding of quotients

A quotient of natural numbers goes to the nearest natural number, and to the even
one of two that are equally near.
-/

namespace PlanFeatures

/-- The natural number nearest to `num / den`; halves go to the even neighbour. -/
def roundDiv (num den : Nat) : Nat :=
  let q := num / den
  let twice := 2 * (num % den)
  if twice < den then q
  else if den < twice then q + 1
  else if q % 2 = 0 then q
  else q + 1

theorem roundDiv_one (n : Nat) : roundDiv n 1 = n := by
  simp [roundDiv, Nat.mod_one]

/-- What divides evenly is not rounded. -/
theorem roundDiv_mul (n : Nat) {den : Nat} (h : 0 < den) : roundDiv (n * den) den = n := by
  simp [roundDiv, Nat.mul_div_cancel n h, h]

end PlanFeatures
