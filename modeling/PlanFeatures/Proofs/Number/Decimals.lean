import Mathlib.Algebra.Group.Nat.Defs
import Mathlib.Tactic.Ring
import PlanFeatures.Number.Decimal

/-!
# Decimals that read back

The binary number nearest to a decimal depends on the value of the decimal alone, so zeros at the
end make no difference.  The shortest decimal of a positive number reads back as that number: a
candidate is taken only if it does, and when there is none the number is written out in full,
which is exact.
-/

namespace PlanFeatures

theorem roundDiv_scale (num den : Nat) {k : Nat} (positive : 0 < k) :
    roundDiv (num * k) (den * k) = roundDiv num den := by
  have quotient : num * k / (den * k) = num / den := Nat.mul_div_mul_right num den positive
  have rest : 2 * (num * k % (den * k)) = 2 * (num % den) * k := by
    rw [Nat.mul_mod_mul_right, Nat.mul_assoc]
  have below : ∀ {a b : Nat}, a * k < b * k ↔ a < b := Nat.mul_lt_mul_right positive
  simp only [roundDiv, quotient, rest, below]

namespace Binary64

/-! ## Nearest numbers -/

theorem nearestBits_scale (num den : Nat) {k : Nat} (positive : 0 < k) :
    nearestBits (num * k) (den * k) = nearestBits num den := by
  have quotient : num * k / (den * k) = num / den := Nat.mul_div_mul_right num den positive
  have shifted : ∀ shift : Nat, (den * k) <<< shift = den <<< shift * k := by
    intro shift
    rw [Nat.shiftLeft_eq, Nat.shiftLeft_eq, Nat.mul_right_comm]
  simp only [nearestBits, quotient, shifted, roundDiv_scale _ _ positive]

/-- Only the quotient matters. -/
theorem nearestBits_congr {num den num' den' : Nat} (positive : 0 < den) (positive' : 0 < den')
    (same : num * den' = num' * den) : nearestBits num den = nearestBits num' den' := by
  rw [← nearestBits_scale num den positive', same, Nat.mul_comm den den',
    nearestBits_scale num' den' positive]

theorem nearestBits_le (num den : Nat) : nearestBits num den ≤ infinityBits := Nat.min_le_right _ _

theorem toNat_ofUnits (num den : Nat) :
    (ofUnits false num den).bits.toNat = nearestBits num den := by
  have bound := nearestBits_le num den
  unfold ofUnits
  generalize nearestBits num den = bits at bound ⊢
  exact Nat.mod_eq_of_lt (Nat.lt_of_le_of_lt bound (by decide))

/-- Numbers without a sign are equal if their magnitudes are. -/
theorem eq_of_magnitude {x y : Binary64} (plain : x.bits.toNat < 1 <<< 63)
    (plain' : y.bits.toNat < 1 <<< 63) (same : x.magnitudeBits = y.magnitudeBits) : x = y := by
  rw [magnitudeBits, magnitudeBits, Nat.mod_eq_of_lt plain, Nat.mod_eq_of_lt plain'] at same
  cases x
  cases y
  exact congrArg Binary64.mk (UInt64.toNat_inj.mp same)

/-- A significand of 53 bits is kept as it is, and its exponent is the number of bits that it is
shifted by. -/
theorem nearestBits_normal {significand shift : Nat} (low : 2 ^ 52 ≤ significand)
    (high : significand < 2 ^ 53) :
    nearestBits (significand * 2 ^ shift) 1 = min (shift * 2 ^ 52 + significand) infinityBits := by
  have positive : 0 < 2 ^ shift := Nat.two_pow_pos shift
  have leading : (significand * 2 ^ shift).log2 = 52 + shift := by
    rw [Nat.log2_eq_iff (Nat.mul_ne_zero (by omega) (by omega))]
    constructor
    · rw [Nat.pow_add]
      exact Nat.mul_le_mul_right _ low
    · rw [Nat.add_right_comm, Nat.pow_add]
      exact Nat.mul_lt_mul_of_pos_right high positive
  have exponent : 52 + shift - 52 = shift := Nat.add_sub_cancel_left 52 shift
  simp only [nearestBits, Nat.div_one, leading, exponent, Nat.shiftLeft_eq, Nat.one_mul,
    roundDiv_mul significand positive]

/-- Below 53 bits the units are the bits. -/
theorem nearestBits_subnormal {units : Nat} (small : units < 2 ^ 52) :
    nearestBits units 1 = min units infinityBits := by
  have leading : units.log2 - 52 = 0 := by
    by_cases zero : units = 0
    · rw [zero]
      rfl
    · have bound := (Nat.log2_lt zero).mpr small
      omega
  simp only [nearestBits, Nat.div_one, leading, Nat.shiftLeft_zero, roundDiv_one,
    Nat.zero_shiftLeft, Nat.zero_add]

/-- A finite number is the nearest one to its own number of units. -/
theorem nearestBits_units {x : Binary64} (finite : x.isFinite = true) :
    nearestBits x.units 1 = x.magnitudeBits := by
  have bound : x.magnitudeBits < infinityBits := of_decide_eq_true finite
  have split : 2 ^ 52 * (x.magnitudeBits / 2 ^ 52) + x.magnitudeBits % 2 ^ 52 = x.magnitudeBits :=
    Nat.div_add_mod _ _
  have small : x.magnitudeBits % 2 ^ 52 < 2 ^ 52 := Nat.mod_lt _ (by decide)
  simp only [units, Nat.shiftRight_eq_div_pow, Nat.shiftLeft_eq, Nat.one_mul]
  generalize x.magnitudeBits / 2 ^ 52 = exponent at *
  generalize x.magnitudeBits % 2 ^ 52 = fraction at *
  cases exponent with
  | zero =>
    rw [if_pos rfl, nearestBits_subnormal small]
    omega
  | succ shift =>
    rw [if_neg (Nat.succ_ne_zero shift), Nat.add_sub_cancel,
      nearestBits_normal (Nat.le_add_right _ _) (by omega)]
    omega

end Binary64

namespace Decimal

/-! ## Zeros at the end -/

theorem digitCount_mul_ten {n : Nat} (positive : 0 < n) :
    digitCount (n * 10) = digitCount n + 1 := by
  have digits := Nat.toDigits_append_toDigits (b := 10) (d := 0) (by decide) positive (by decide)
  rw [digitCount, digitCount, Nat.mul_comm, ← Nat.add_zero (10 * n), ← digits, List.length_append]
  rfl

theorem units_pos (d : Decimal) : 0 < d.units.2 := by
  obtain ⟨digits, exponent⟩ := d
  cases exponent with
  | ofNat e => exact Nat.one_pos
  | negSucc e => exact Nat.pow_pos (by decide)

theorem units_mul_ten (n : Nat) (e : Int) :
    (units ⟨n * 10, e - 1⟩).1 * (units ⟨n, e⟩).2
      = (units ⟨n, e⟩).1 * (units ⟨n * 10, e - 1⟩).2 := by
  rcases e with (_ | e) | e
  · show (n * 10) <<< Binary64.unitBits * 1
      = n <<< Binary64.unitBits * Nat.pow 10 0 * Nat.pow 10 (0 + 1)
    simp only [Nat.shiftLeft_eq, Nat.pow_eq]
    ring
  · have less : (Int.ofNat (e + 1) : Int) - 1 = Int.ofNat e := by
      simp
    rw [less]
    show (n * 10) <<< Binary64.unitBits * Nat.pow 10 e * 1
      = n <<< Binary64.unitBits * Nat.pow 10 (e + 1) * 1
    simp only [Nat.shiftLeft_eq, Nat.pow_eq]
    ring
  · show (n * 10) <<< Binary64.unitBits * Nat.pow 10 (e + 1)
      = n <<< Binary64.unitBits * Nat.pow 10 (e + 1 + 1)
    simp only [Nat.shiftLeft_eq, Nat.pow_eq]
    ring

/-- One zero more and an exponent that is smaller by one. -/
theorem toBinary_mul_ten (negative : Bool) (n : Nat) (e : Int) :
    toBinary negative ⟨n * 10, e - 1⟩ = toBinary negative ⟨n, e⟩ := by
  by_cases zero : n = 0
  · simp [toBinary, zero]
  · have place : (digitCount (n * 10) : Int) + (e - 1) = digitCount n + e := by
      rw [digitCount_mul_ten (Nat.pos_of_ne_zero zero)]
      omega
    have nearest := Binary64.nearestBits_congr (units_pos ⟨n * 10, e - 1⟩) (units_pos ⟨n, e⟩)
      (units_mul_ten n e)
    have some : n * 10 ≠ 0 := by omega
    simp only [toBinary, place, zero, some, Binary64.ofUnits, nearest]

theorem toBinary_zeros (negative : Bool) (n k : Nat) (e : Int) :
    toBinary negative ⟨n * 10 ^ k, e - k⟩ = toBinary negative ⟨n, e⟩ := by
  induction k with
  | zero => simp
  | succ k ih =>
    have exponent : e - (k + 1 : Nat) = e - k - 1 := by omega
    rw [exponent, Nat.pow_succ, ← Nat.mul_assoc, toBinary_mul_ten, ih]

/-! ## The shortest decimal -/

/-- What is read without a sign has none. -/
theorem toBinary_plain (d : Decimal) : (toBinary false d).bits.toNat < 1 <<< 63 := by
  have finite : ∀ num den, (Binary64.ofUnits false num den).bits.toNat < 1 <<< 63 := by
    intro num den
    rw [Binary64.toNat_ofUnits]
    exact Nat.lt_of_le_of_lt (Binary64.nearestBits_le num den) (by decide)
  unfold toBinary
  dsimp only
  split
  next => exact finite 0 1
  next =>
    split
    next => decide
    next => exact finite _ _

end Decimal

/-- What the largest exponent leaves of the units. -/
theorem Binary64.units_lt {x : Binary64} {shift : Nat}
    (exponent : x.magnitudeBits / 2 ^ 52 ≤ shift + 1) : x.units < 2 ^ 53 * 2 ^ shift := by
  have small : x.magnitudeBits % 2 ^ 52 < 2 ^ 52 := Nat.mod_lt _ (by decide)
  have wide : 2 ^ 52 < 2 ^ 53 := by decide
  simp only [units, Nat.shiftRight_eq_div_pow, Nat.shiftLeft_eq, Nat.one_mul]
  split
  next =>
    exact Nat.lt_of_lt_of_le (Nat.lt_trans small wide)
      (Nat.le_mul_of_pos_right _ (Nat.two_pow_pos shift))
  next =>
    exact Nat.mul_lt_mul_of_lt_of_le (by omega) (Nat.pow_le_pow_right (by decide) (by omega))
      (Nat.two_pow_pos shift)

namespace Decimal

theorem units_places (n : Nat) {k : Nat} (positive : 0 < k) :
    units ⟨n, -(k : Int)⟩ = (n <<< Binary64.unitBits, 10 ^ k) := by
  cases k with
  | zero => exact absurd positive (Nat.lt_irrefl 0)
  | succ k => rfl

/-- A quotient with `k` places, neither of which is out of range. -/
theorem toBinary_places {n k : Nat} (positive : 0 < k) (some : n ≠ 0)
    (low : k ≤ digitCount n + 400) (high : digitCount n ≤ k + 400) :
    toBinary false ⟨n, -(k : Int)⟩ = .ofUnits false (n <<< Binary64.unitBits) (10 ^ k) := by
  have inside : ¬ (n = 0 ∨ (digitCount n : Int) + -(k : Int) < -400) := by
    simp only [some, false_or]
    omega
  have inside' : ¬ (400 < (digitCount n : Int) + -(k : Int)) := by omega
  have parts := units_places n positive
  simp only [toBinary, inside, inside', if_false, parts]

theorem digitCount_le_iff {n k : Nat} (positive : 0 < k) : digitCount n ≤ k ↔ n < 10 ^ k :=
  Nat.length_toDigits_le_iff (by decide) positive

theorem exact_eq (units : Nat) :
    exact units = ⟨units * 5 ^ Binary64.unitBits, -(Binary64.unitBits : Int)⟩ := by
  rw [exact, Nat.pow_eq]

/-- The bounds on the digits of `exact`: its last place is the unit, and the digits of a number
of units are those of `5 ^ 1074` and more. -/
theorem digitCount_exact {x : Binary64} (finite : x.isFinite = true) (some : x.units ≠ 0) :
    673 < digitCount (x.units * 5 ^ Binary64.unitBits) ∧
      digitCount (x.units * 5 ^ Binary64.unitBits) ≤ 1474 := by
  have smallest : 10 ^ 673 ≤ 5 ^ Binary64.unitBits := by decide +kernel
  have largest : 2 ^ 53 * 2 ^ 2045 * 5 ^ Binary64.unitBits < 10 ^ 1474 := by decide +kernel
  have exponent : x.magnitudeBits / 2 ^ 52 ≤ 2045 + 1 := by
    have bound : x.magnitudeBits < Binary64.infinityBits := of_decide_eq_true finite
    have top : Binary64.infinityBits = 2047 * 2 ^ 52 := by decide
    omega
  have units := Binary64.units_lt exponent
  have positive : 0 < 5 ^ Binary64.unitBits := Nat.pow_pos (by decide)
  -- From here on the power is a name, so that nothing writes it out.
  generalize 5 ^ Binary64.unitBits = five at *
  constructor
  · refine Nat.lt_of_not_le fun few => ?_
    have small := (digitCount_le_iff (by decide)).mp few
    exact Nat.not_lt.mpr (Nat.le_mul_of_pos_left five (Nat.pos_of_ne_zero some))
      (Nat.lt_of_lt_of_le small smallest)
  · refine (digitCount_le_iff (by decide)).mpr ?_
    exact Nat.lt_trans (Nat.mul_lt_mul_of_pos_right units positive) largest

/-- A number that is written out in full is read back. -/
theorem toBinary_exact {x : Binary64} (finite : x.isFinite = true) (some : x.units ≠ 0) :
    (toBinary false (exact x.units)).magnitudeBits = x.magnitudeBits := by
  obtain ⟨low, high⟩ := digitCount_exact finite some
  have places : Binary64.unitBits = 1074 := rfl
  have digits : x.units * 5 ^ Binary64.unitBits ≠ 0 :=
    Nat.mul_ne_zero some (Nat.pow_pos (by decide)).ne'
  have whole : (x.units * 5 ^ Binary64.unitBits) <<< Binary64.unitBits * 1
      = x.units * 10 ^ Binary64.unitBits := by
    rw [Nat.mul_one, Nat.shiftLeft_eq, Nat.mul_assoc, ← Nat.mul_pow]
  have positive : 0 < 10 ^ Binary64.unitBits := Nat.pow_pos (by decide)
  have nearest := Binary64.nearestBits_congr positive Nat.one_pos whole
  rw [exact_eq, toBinary_places (by decide) digits (by omega) (by omega), Binary64.magnitudeBits,
    Binary64.toNat_ofUnits, nearest, Binary64.nearestBits_units finite]
  exact Nat.mod_eq_of_lt (Nat.mod_lt _ (by decide))

/-- The shortest decimal of a positive number is read back as that number. -/
theorem toBinary_shortest {x : Binary64} (positive : x.isPositive = true) :
    toBinary false (shortest x) = x := by
  obtain ⟨⟨finite, plain⟩, some⟩ : (x.isFinite = true ∧ x.isNegative = false) ∧ x.units ≠ 0 := by
    simpa [Binary64.isPositive] using positive
  have unsigned : x.bits.toNat < 1 <<< 63 := Nat.not_le.mp (of_decide_eq_false plain)
  refine Binary64.eq_of_magnitude (toBinary_plain _) unsigned ?_
  unfold shortest
  dsimp only
  -- Any candidate will do: it is taken only if it reads back.
  generalize (List.range 17).flatMap _ = candidates
  cases found : candidates.find? fun d => (d.toBinary false).magnitudeBits = x.magnitudeBits with
  | none => exact toBinary_exact finite some
  | some d =>
    have reads := List.find?_some found
    exact of_decide_eq_true reads

end Decimal
end PlanFeatures
