import Mathlib.Data.List.TakeWhile
import PlanFeatures.Proofs.Number.Decimals

/-!
# Texts of decimals

A decimal is written as a whole number, and a point with digits behind it if there are any.  The
zeros that fill it up and those that are left out do not change its value, so the text reads back
as the same binary number.
-/

namespace PlanFeatures

/-- Digits of a number, without zeros before others. -/
structure IsWhole (cs : List Char) : Prop where
  digits : ∀ c ∈ cs, c.isDigit = true
  leading : cs = ['0'] ∨ ∃ c rest, cs = c :: rest ∧ c ≠ '0'

theorem IsWhole.head (whole : IsWhole cs) : ∃ c tail, cs = c :: tail ∧ c.isDigit = true := by
  obtain ⟨digits, leading⟩ := whole
  obtain rfl | ⟨c, tail, rfl, -⟩ := leading
  · exact ⟨'0', [], rfl, rfl⟩
  · exact ⟨c, tail, rfl, digits c List.mem_cons_self⟩

namespace Decimal

/-! ## Digits -/

theorem leading_toDigits {n : Nat} (positive : 0 < n) :
    ∃ c rest, Nat.toDigits 10 n = c :: rest ∧ c ≠ '0' := by
  induction n using Nat.strongRecOn with
  | ind n ih =>
    rw [Nat.toDigits_eq_if (by decide)]
    split
    next one =>
      have some : ∀ m < 10, 0 < m → m.digitChar ≠ '0' := by decide
      exact ⟨_, _, rfl, some n one positive⟩
    next many =>
      obtain ⟨c, rest, digits, some⟩ := ih (n / 10) (by omega) (by omega)
      exact ⟨c, rest ++ [(n % 10).digitChar], by rw [digits, List.cons_append], some⟩

theorem isDigit_of_mem_digits {n : Nat} : ∀ c ∈ Nat.toDigits 10 n, c.isDigit = true :=
  fun _ member => Nat.isDigit_of_mem_toDigits (by decide) (by decide) member

theorem isWhole_toDigits (n : Nat) : IsWhole (Nat.toDigits 10 n) where
  digits := isDigit_of_mem_digits
  leading := by
    by_cases zero : n = 0
    · exact Or.inl (zero ▸ Nat.toDigits_zero 10)
    · exact Or.inr (leading_toDigits (Nat.pos_of_ne_zero zero))

theorem isDigit_of_mem_zeros {k : Nat} : ∀ c ∈ List.replicate k '0', c.isDigit = true := by
  intro c member
  rw [List.eq_of_mem_replicate member]
  decide

theorem ofDigits_toDigits (n : Nat) : ofDigits (Nat.toDigits 10 n) = n :=
  Nat.ofDigitChars_ten_toDigits

theorem ofDigits_append_zeros (cs : List Char) (k : Nat) :
    ofDigits (cs ++ List.replicate k '0') = ofDigits cs * 10 ^ k := by
  rw [ofDigits, Nat.ofDigitChars_append, Nat.ofDigitChars_replicate_zero, Nat.mul_comm]
  rfl

theorem ofDigits_zeros_append (cs : List Char) (k : Nat) :
    ofDigits (List.replicate k '0' ++ cs) = ofDigits cs := by
  rw [ofDigits, Nat.ofDigitChars_append, Nat.ofDigitChars_replicate_zero, Nat.mul_zero]
  rfl

/-- Zeros at the end are dropped. -/
theorem exists_zeros (cs : List Char) :
    ∃ k, cs = (cs.reverse.dropWhile (· == '0')).reverse ++ List.replicate k '0' := by
  have zeros : cs.reverse.takeWhile (· == '0')
      = List.replicate (cs.reverse.takeWhile (· == '0')).length '0' := by
    refine List.eq_replicate_of_mem fun c member => ?_
    exact eq_of_beq (List.mem_takeWhile_imp (p := (· == '0')) member)
  have split := List.takeWhile_append_dropWhile (p := (· == '0')) (l := cs.reverse)
  rw [zeros] at split
  refine ⟨(cs.reverse.takeWhile (· == '0')).length, ?_⟩
  have turned := congrArg List.reverse split
  rw [List.reverse_append, List.reverse_replicate, List.reverse_reverse] at turned
  exact turned.symm

/-! ## Whole numbers and fractions -/

/-- A whole number and the digits behind the point have the value of a decimal. -/
structure Spells (whole places : List Char) (d : Decimal) : Prop where
  isWhole : IsWhole whole
  areDigits : ∀ c ∈ places, c.isDigit = true
  value : toBinary false ⟨ofDigits (whole ++ places), -(places.length : Int)⟩ = toBinary false d

/-- A point may be added with a zero behind it. -/
theorem Spells.with_point {whole : List Char} {d : Decimal} (spells : Spells whole [] d) :
    Spells whole ['0'] d where
  isWhole := spells.isWhole
  areDigits := isDigit_of_mem_zeros (k := 1)
  value := by
    have value := spells.value
    have zero := ofDigits_append_zeros whole 1
    rw [List.append_nil] at value
    rw [← value]
    exact (congrArg (fun n => toBinary false ⟨n, -1⟩) zero).trans
      (toBinary_zeros false (ofDigits whole) 1 0)

theorem spells_scaled {n : Nat} (some : n ≠ 0) (e : Nat) :
    Spells (Nat.toDigits 10 n ++ List.replicate e '0') [] ⟨n, Int.ofNat e⟩ where
  isWhole := by
    obtain ⟨c, rest, digits, leading⟩ := leading_toDigits (Nat.pos_of_ne_zero some)
    refine ⟨?_, Or.inr ⟨c, rest ++ List.replicate e '0', by rw [digits, List.cons_append], leading⟩⟩
    exact List.forall_mem_append.mpr ⟨isDigit_of_mem_digits, isDigit_of_mem_zeros⟩
  areDigits := fun _ member => absurd member List.not_mem_nil
  value := by
    have zeros := toBinary_zeros false n e (Int.ofNat e)
    rw [List.append_nil, ofDigits_append_zeros, ofDigits_toDigits, ← zeros]
    simp

/-- Digits with at least one more than there are places. -/
def padded (n e : Nat) : List Char :=
  List.replicate (e + 2 - (Nat.toDigits 10 n).length) '0' ++ Nat.toDigits 10 n

theorem length_padded (n e : Nat) : e + 1 < (padded n e).length := by
  rw [padded, List.length_append, List.length_replicate]
  omega

/-- A whole number that is filled up with zeros is zero or has no zeros before it. -/
theorem isWhole_take_padded {n : Nat} (some : n ≠ 0) (e : Nat) :
    IsWhole ((padded n e).take ((padded n e).length - (e + 1))) where
  digits := fun c member => by
    have digits : ∀ c ∈ padded n e, c.isDigit = true :=
      List.forall_mem_append.mpr ⟨isDigit_of_mem_zeros, isDigit_of_mem_digits⟩
    exact digits c (List.mem_of_mem_take member)
  leading := by
    by_cases short : (Nat.toDigits 10 n).length < e + 2
    · obtain ⟨k, count⟩ : ∃ k, e + 2 - (Nat.toDigits 10 n).length = k + 1 :=
        ⟨e + 1 - (Nat.toDigits 10 n).length, by omega⟩
      have one : (padded n e).length - (e + 1) = 1 := by
        rw [padded, List.length_append, List.length_replicate]
        omega
      rw [one, padded, count]
      exact Or.inl rfl
    · have none : e + 2 - (Nat.toDigits 10 n).length = 0 := by omega
      obtain ⟨c, rest, digits, leading⟩ := leading_toDigits (Nat.pos_of_ne_zero some)
      have long := length_padded n e
      obtain ⟨k, count⟩ : ∃ k, (padded n e).length - (e + 1) = k + 1 :=
        ⟨(padded n e).length - (e + 2), by omega⟩
      rw [count, padded, none, digits]
      exact Or.inr ⟨c, rest.take k, rfl, leading⟩

/-- What stays of the places when the zeros at the end are dropped. -/
theorem spells_places {n : Nat} (some : n ≠ 0) (e : Nat) :
    Spells ((padded n e).take ((padded n e).length - (e + 1)))
      ((((padded n e).drop ((padded n e).length - (e + 1))).reverse.dropWhile (· == '0')).reverse)
      ⟨n, Int.negSucc e⟩ := by
  have whole := isWhole_take_padded some e
  have long := length_padded n e
  have value : ofDigits (padded n e) = n := by
    rw [padded, ofDigits_zeros_append, ofDigits_toDigits]
  have digits : ∀ c ∈ padded n e, c.isDigit = true :=
    List.forall_mem_append.mpr ⟨isDigit_of_mem_zeros, isDigit_of_mem_digits⟩
  have split := List.take_append_drop ((padded n e).length - (e + 1)) (padded n e)
  have count : ((padded n e).drop ((padded n e).length - (e + 1))).length = e + 1 := by
    rw [List.length_drop]
    omega
  generalize padded n e = all at *
  generalize all.take (all.length - (e + 1)) = before at *
  generalize all.drop (all.length - (e + 1)) = behind at *
  obtain ⟨k, zeros⟩ := exists_zeros behind
  generalize (behind.reverse.dropWhile (· == '0')).reverse = places at *
  subst zeros split
  refine ⟨whole, fun c member => digits c (by simp [member]), ?_⟩
  rw [← List.append_assoc, ofDigits_append_zeros] at value
  have exponent : Int.negSucc e = -(places.length : Int) - (k : Int) := by
    rw [List.length_append, List.length_replicate] at count
    omega
  rw [← value, exponent, toBinary_zeros]

/-- The text of a decimal spells it, with a point if there are places. -/
theorem exists_text {d : Decimal} (some : d.digits ≠ 0) :
    ∃ whole places, Spells whole places d ∧
      d.text.toList = if places.isEmpty then whole else whole ++ '.' :: places := by
  obtain ⟨n, e | e⟩ := d
  · refine ⟨_, [], spells_scaled some e, ?_⟩
    have nonzero : n ≠ 0 := some
    simp [text, nonzero]
  · refine ⟨_, _, spells_places some e, ?_⟩
    have count : ((padded n e).take ((padded n e).length - (e + 1))).length
        = (padded n e).length - (e + 1) := by
      rw [List.length_take]
      omega
    unfold text
    dsimp only
    rw [String.toList_ofList, ← padded, count]

/-- The shortest decimal of a positive number is not zero. -/
theorem digits_shortest_ne_zero {x : Binary64} (positive : x.isPositive = true) :
    (shortest x).digits ≠ 0 := by
  intro zero
  have none : x.units = 0 := by
    rw [← toBinary_shortest positive, toBinary]
    simp only [zero, true_or, if_true]
    rfl
  simp [Binary64.isPositive, none] at positive

end Decimal

theorem Binary64.isNaN_eq_false {x : Binary64} (finite : x.isFinite = true) : x.isNaN = false := by
  simp only [isNaN, isFinite, decide_eq_false_iff_not, decide_eq_true_eq] at finite ⊢
  omega

/-- The text of a positive number spells the shortest decimal. -/
theorem Binary64.exists_text {x : Binary64} (positive : x.isPositive = true) :
    ∃ whole places, Decimal.Spells whole places (Decimal.shortest x) ∧
      x.text.toList = if places.isEmpty then whole else whole ++ '.' :: places := by
  have parts := positive
  simp only [isPositive, Bool.and_eq_true, Bool.not_eq_true', bne_iff_ne] at parts
  obtain ⟨⟨finite, plain⟩, some⟩ := parts
  have number := isNaN_eq_false finite
  have same : x.text = (Decimal.shortest x).text := by
    simp [text, number, plain, finite, some]
  rw [same]
  exact Decimal.exists_text (Decimal.digits_shortest_ne_zero positive)

end PlanFeatures
